import Courseware.Proofs.Zip.FixedCode

/-!
# Factoring

The symbols that bytes are factored into stand for those bytes, whatever
copies were looked for: every copy that is made has been compared.
-/

namespace Courseware.Zip

/-! ## Copies -/

/-- Whether the bytes from two places on agree for a length, inside the data. -/
def Agree (data : Array UInt8) (i j length : Nat) : Prop :=
  ∀ k < length, ∃ b, data[i + k]? = some b ∧ data[j + k]? = some b

theorem agree_commonLength (data : Array UInt8) (i j limit : Nat) :
    Agree data i j (commonLength data i j limit) := by
  induction limit generalizing i j with
  | zero => simp [Agree, commonLength]
  | succ limit ih =>
    intro k hk
    simp only [commonLength] at hk
    split at hk
    · rename_i a b ha hb
      split at hk
      · rename_i heq
        cases k with
        | zero => exact ⟨a, ha, heq ▸ hb⟩
        | succ k =>
          obtain ⟨c, hi, hj⟩ := ih (i + 1) (j + 1) k (Nat.lt_of_succ_lt_succ hk)
          exact ⟨c, by rw [← hi]; congr 1; omega, by rw [← hj]; congr 1; omega⟩
      · omega
    · omega

theorem commonLength_le (data : Array UInt8) (i j limit : Nat) :
    commonLength data i j limit ≤ limit := by
  induction limit generalizing i j with
  | zero => simp [commonLength]
  | succ limit ih =>
    simp only [commonLength]
    split
    · split
      · exact Nat.succ_le_succ (ih _ _)
      · omega
    · omega

/-- A copy of what stands at a place from an earlier place, or none at all. -/
def ValidCopy (data : Array UInt8) (i : Nat) (c : Nat × Nat) : Prop :=
  c.1 = 0 ∨
    ∃ j < i, c.2 = i - j ∧ c.2 ≤ farthestCopy ∧ c.1 ≤ longestCopy ∧ Agree data i j c.1

theorem validCopy_bestCopy (data : Array UInt8) (i : Nat) (earlier : List Nat) :
    ValidCopy data i (bestCopy data i earlier) := by
  have hfold : ∀ best, ValidCopy data i best →
      ValidCopy data i (earlier.foldl (fun best j =>
        if j < i ∧ i - j ≤ farthestCopy then
          let length := commonLength data i j longestCopy
          if best.1 < length then (length, i - j) else best
        else best) best) := by
    induction earlier with
    | nil => exact fun _ h => h
    | cons j earlier ih =>
      intro best hbest
      apply ih
      simp only
      split
      · rename_i hj
        split
        · exact Or.inr ⟨j, hj.1, rfl, hj.2, commonLength_le data i j longestCopy,
            agree_commonLength data i j longestCopy⟩
        · exact hbest
      · exact hbest
  exact hfold (0, 0) (Or.inl rfl)

/-! ## Expansion -/

/-- Whether the bytes written so far are the first ones of the data. -/
def IsStart (data out : Array UInt8) (i : Nat) : Prop :=
  out.toList = data.toList.take i ∧ i ≤ data.size

theorem IsStart.size {data out : Array UInt8} {i : Nat} (h : IsStart data out i) :
    out.size = i := by
  have hlen := congrArg List.length h.1
  simp only [Array.length_toList, List.length_take] at hlen
  have hle := h.2
  omega

theorem IsStart.push {data out : Array UInt8} {i : Nat} {b : UInt8}
    (h : IsStart data out i) (hb : data[i]? = some b) :
    IsStart data (out.push b) (i + 1) := by
  obtain ⟨hlt, hget⟩ := Array.getElem?_eq_some_iff.mp hb
  refine ⟨?_, hlt⟩
  rw [Array.toList_push, h.1, List.take_add_one, Array.getElem?_toList, hb]
  rfl

theorem IsStart.getElem? {data out : Array UInt8} {i j : Nat}
    (h : IsStart data out i) (hj : j < i) : out[j]? = data[j]? := by
  rw [← Array.getElem?_toList, h.1, List.getElem?_take_of_lt hj, Array.getElem?_toList]

/-- What has been written up to the end is all of the data. -/
theorem IsStart.eq {data out : Array UInt8} {i : Nat} (h : IsStart data out i)
    (hend : data.size ≤ i) : out = data := by
  apply Array.toList_inj.mp
  rw [h.1, List.take_of_length_le (by simpa using hend)]

/-- A copy of bytes that agree continues the data. -/
theorem copyBytes_of_agree {data out : Array UInt8} {i j : Nat} (length : Nat)
    (hstart : IsStart data out i) (hj : j < i) (hagree : Agree data i j length) :
    ∃ next, copyBytes (i - j) out length = some next ∧
      IsStart data next (i + length) := by
  -- A copy may reach into what it writes itself, so both places move on with each byte.
  induction length generalizing out i j with
  | zero => exact ⟨out, rfl, hstart⟩
  | succ length ih =>
    obtain ⟨b, hbi, hbj⟩ := hagree 0 (Nat.succ_pos length)
    have hsize := hstart.size
    have hplace : out.size - (i - j) = j := by omega
    have hread : out[out.size - (i - j)]? = some b := by
      rw [hplace, hstart.getElem? hj]
      exact hbj
    have hrest : Agree data (i + 1) (j + 1) length := by
      intro k hk
      obtain ⟨c, hci, hcj⟩ := hagree (k + 1) (Nat.succ_lt_succ hk)
      exact ⟨c, by rw [← hci]; congr 1; omega, by rw [← hcj]; congr 1; omega⟩
    obtain ⟨next, hnext, hreached⟩ :=
      ih (hstart.push hbi) (Nat.succ_lt_succ hj) hrest
    have hdistance : i + 1 - (j + 1) = i - j := by omega
    refine ⟨next, ?_, ?_⟩
    · rw [copyBytes, if_neg (by omega), hread]
      simp only
      rw [← hdistance]
      exact hnext
    · have hsum : i + 1 + length = i + (length + 1) := by omega
      rwa [hsum] at hreached

/-- What is factored at a place: nothing at the end, else a copy of bytes that agree with
those at the place, or the byte that stands there. -/
theorem factorFrom_cases (effort : Nat) (data : Array UInt8) (places : Places) (i fuel : Nat) :
    (data.size ≤ i ∧ factorFrom effort data places i (fuel + 1) = []) ∨
      (∃ j length later, j < i ∧ i - j ≤ farthestCopy ∧ 3 ≤ length ∧ length ≤ longestCopy ∧
        Agree data i j length ∧ factorFrom effort data places i (fuel + 1) =
          .copy length (i - j) :: factorFrom effort data later (i + length) fuel) ∨
      ∃ b later, data[i]? = some b ∧ factorFrom effort data places i (fuel + 1) =
        .literal b :: factorFrom effort data later (i + 1) fuel := by
  rw [factorFrom]
  split
  · rename_i hnone
    exact Or.inl ⟨Array.getElem?_eq_none_iff.mp hnone, rfl⟩
  · rename_i b hb
    have hvalid := validCopy_bestCopy data i
    simp only
    generalize hbest : bestCopy data i _ = c
    replace hvalid := hbest ▸ hvalid _
    split
    · rename_i hthree
      rcases hvalid with hzero | ⟨j, hj, hdistance, hfar, hlong, hagree⟩
      · omega
      · rw [hdistance] at hfar ⊢
        exact Or.inr (Or.inl ⟨j, c.1, _, hj, hfar, hthree, hlong, hagree, rfl⟩)
    · exact Or.inr (Or.inr ⟨b, _, hb, rfl⟩)

/-- The symbols from a place on continue what has been written up to there. -/
theorem expand_factorFrom {effort : Nat} {data : Array UInt8} {places : Places}
    {i fuel : Nat} {out : Array UInt8} (hstart : IsStart data out i)
    (hfuel : data.size - i ≤ fuel) :
    (factorFrom effort data places i fuel).foldlM Symbol.expand out = some data := by
  induction fuel generalizing places i out with
  | zero => simp [factorFrom, hstart.eq (by omega)]
  | succ fuel ih =>
    rcases factorFrom_cases effort data places i fuel with
      ⟨hend, heq⟩ | ⟨j, length, later, hj, -, hthree, -, hagree, heq⟩ | ⟨b, later, hb, heq⟩
    · simp [heq, hstart.eq hend]
    · obtain ⟨next, hnext, hreached⟩ := copyBytes_of_agree _ hstart hj hagree
      rw [heq, List.foldlM_cons, Symbol.expand, hnext]
      exact ih hreached (by omega)
    · rw [heq, List.foldlM_cons, Symbol.expand]
      exact ih (hstart.push hb) (by omega)

/-- Factored bytes expand to themselves. -/
theorem expand_factor (effort : Nat) (data : Array UInt8) :
    expand (factor effort data) = some data :=
  expand_factorFrom ⟨by simp, Nat.zero_le _⟩ (by simp)

/-- The format can write every symbol that bytes are factored into. -/
theorem writable_of_mem_factorFrom {effort : Nat} {data : Array UInt8}
    {places : Places} {i fuel : Nat} {s : Symbol}
    (h : s ∈ factorFrom effort data places i fuel) : s.Writable := by
  induction fuel generalizing places i with
  | zero => simp [factorFrom] at h
  | succ fuel ih =>
    rcases factorFrom_cases effort data places i fuel with
      ⟨-, heq⟩ | ⟨j, length, later, hj, hfar, hthree, hlong, -, heq⟩ | ⟨b, later, -, heq⟩
    · simp [heq] at h
    · rw [heq] at h
      rcases List.mem_cons.mp h with rfl | h
      · exact ⟨hthree, hlong, by omega, hfar⟩
      · exact ih h
    · rw [heq] at h
      rcases List.mem_cons.mp h with rfl | h
      · trivial
      · exact ih h

theorem writable_of_mem_factor {effort : Nat} {data : Array UInt8} {s : Symbol}
    (h : s ∈ factor effort data) : s.Writable :=
  writable_of_mem_factorFrom h

end Courseware.Zip
