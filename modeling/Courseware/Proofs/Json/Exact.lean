import Courseware.Proofs.Json.Lexemes

/-!
# Values are recovered from their texts

A strict reader puts the lexemes of a text together. From what is printed over several lines it
recovers the value that was printed: its texts, whatever they hold, its numbers, its members in
their order, and brackets of any depth.
-/

namespace Courseware.Json

/-! ## Reading -/

namespace Lexeme

mutual

/-- The value that some lexemes start with, and the lexemes behind it. The fuel bounds the number
of steps. -/
def value? : (fuel : Nat) → List Lexeme → Option (Json × List Lexeme)
  | 0, _ => none
  | _ + 1, .null :: ls => some (.null, ls)
  | _ + 1, .bool b :: ls => some (.bool b, ls)
  | _ + 1, .number n :: ls => some (.number n, ls)
  | _ + 1, .string s :: ls => some (.string s, ls)
  | _ + 1, .openArray :: .closeArray :: ls => some (.array [], ls)
  | fuel + 1, .openArray :: ls => do
    let (vs, ls) ← items? fuel ls
    return (.array vs, ls)
  | _ + 1, .openObject :: .closeObject :: ls => some (.object [], ls)
  | fuel + 1, .openObject :: ls => do
    let (ms, ls) ← members? fuel ls
    return (.object ms, ls)
  | _ + 1, _ => none

/-- Items with commas between them, up to the bracket behind the last one. -/
def items? : (fuel : Nat) → List Lexeme → Option (List Json × List Lexeme)
  | 0, _ => none
  | fuel + 1, ls => do
    match ← value? fuel ls with
    | (v, .closeArray :: ls) => return ([v], ls)
    | (v, .comma :: ls) =>
      let (vs, ls) ← items? fuel ls
      return (v :: vs, ls)
    | _ => none

/-- Members with commas between them, up to the brace behind the last one. -/
def members? : (fuel : Nat) → List Lexeme → Option (List (String × Json) × List Lexeme)
  | fuel + 1, .string name :: .colon :: ls => do
    match ← value? fuel ls with
    | (v, .closeObject :: ls) => return ([(name, v)], ls)
    | (v, .comma :: ls) =>
      let (ms, ls) ← members? fuel ls
      return ((name, v) :: ms, ls)
    | _ => none
  | _, _ => none

end

end Lexeme

/-- The value that a text stands for. -/
def parse? (s : String) : Option Json := do
  let ls ← Lexeme.listOf? (s.toList.length + 1) s.toList
  match ← Lexeme.value? ls.length ls with
  | (v, []) => some v
  | _ => none

/-! ## The lexemes of a value -/

mutual

/-- The lexemes that a value is written with. -/
def lexemes : Json → List Lexeme
  | null => [.null]
  | bool b => [.bool b]
  | number n => [.number n]
  | string s => [.string s]
  | array vs => .openArray :: (itemLexemes vs ++ [.closeArray])
  | object ms => .openObject :: (memberLexemes ms ++ [.closeObject])

/-- The lexemes of items with commas between them. -/
def itemLexemes : List Json → List Lexeme
  | [] => []
  | [v] => v.lexemes
  | v :: vs => v.lexemes ++ .comma :: itemLexemes vs

/-- The lexemes of members with commas between them. -/
def memberLexemes : List (String × Json) → List Lexeme
  | [] => []
  | [m] => .string m.1 :: .colon :: m.2.lexemes
  | m :: ms => .string m.1 :: .colon :: (m.2.lexemes ++ .comma :: memberLexemes ms)

end

theorem lexemes_length_pos (v : Json) : 0 < v.lexemes.length := by
  cases v <;> simp [lexemes]

/-- No item starts with the bracket at the end of an array. -/
theorem itemLexemes_ne_closeArray (v : Json) (vs : List Json) (more ls : List Lexeme) :
    itemLexemes (v :: vs) ++ more ≠ .closeArray :: ls := by
  cases v <;> cases vs <;> simp [itemLexemes, lexemes]

section Values

open Lexeme (value? items? members?)

/-- Whether a value is found in its lexemes. -/
def Recovered (v : Json) : Prop :=
  ∀ fuel more, v.lexemes.length ≤ fuel → value? fuel (v.lexemes ++ more) = some (v, more)

theorem items?_itemLexemes {v : Json} {vs : List Json} (h : ∀ w ∈ v :: vs, Recovered w) {fuel : Nat}
    (hfuel : (itemLexemes (v :: vs)).length < fuel) (more : List Lexeme) :
    items? fuel (itemLexemes (v :: vs) ++ .closeArray :: more) = some (v :: vs, more) := by
  induction vs generalizing v fuel with
  | nil =>
    obtain ⟨fuel, rfl⟩ : ∃ k, fuel = k + 1 := ⟨fuel - 1, by omega⟩
    rw [itemLexemes] at hfuel ⊢
    have hv := h v List.mem_cons_self fuel (.closeArray :: more) (by omega)
    rw [items?, hv]
    rfl
  | cons w vs ih =>
    obtain ⟨fuel, rfl⟩ : ∃ k, fuel = k + 1 := ⟨fuel - 1, by omega⟩
    obtain ⟨hv, hvs⟩ := List.forall_mem_cons.mp h
    have hpos := lexemes_length_pos v
    have hsplit : itemLexemes (v :: w :: vs) = v.lexemes ++ .comma :: itemLexemes (w :: vs) := rfl
    rw [hsplit, List.length_append, List.length_cons] at hfuel
    have hbound : (itemLexemes (w :: vs)).length < fuel := by omega
    have hrest := ih hvs hbound
    rw [hsplit, List.append_assoc, List.cons_append, items?, hv fuel _ (by omega)]
    simp only [Option.bind_eq_bind, Option.bind_some, hrest]
    rfl

theorem members?_memberLexemes {m : String × Json} {ms : List (String × Json)}
    (h : ∀ n ∈ m :: ms, Recovered n.2) {fuel : Nat}
    (hfuel : (memberLexemes (m :: ms)).length < fuel) (more : List Lexeme) :
    members? fuel (memberLexemes (m :: ms) ++ .closeObject :: more) = some (m :: ms, more) := by
  induction ms generalizing m fuel with
  | nil =>
    obtain ⟨fuel, rfl⟩ : ∃ k, fuel = k + 1 := ⟨fuel - 1, by omega⟩
    rw [memberLexemes, List.length_cons, List.length_cons] at hfuel
    have hm := h m List.mem_cons_self fuel (.closeObject :: more) (by omega)
    rw [memberLexemes, List.cons_append, List.cons_append, members?, hm]
    rfl
  | cons n ms ih =>
    obtain ⟨fuel, rfl⟩ : ∃ k, fuel = k + 1 := ⟨fuel - 1, by omega⟩
    obtain ⟨hm, hms⟩ := List.forall_mem_cons.mp h
    have hsplit : memberLexemes (m :: n :: ms) =
        .string m.1 :: .colon :: (m.2.lexemes ++ .comma :: memberLexemes (n :: ms)) := rfl
    rw [hsplit, List.length_cons, List.length_cons, List.length_append, List.length_cons] at hfuel
    have hbound : (memberLexemes (n :: ms)).length < fuel := by omega
    have hrest := ih hms hbound
    rw [hsplit, List.cons_append, List.cons_append, List.append_assoc, List.cons_append, members?,
      hm fuel _ (by omega)]
    simp only [Option.bind_eq_bind, Option.bind_some, hrest]
    rfl

/-- Every value is found in its lexemes, whatever follows. -/
theorem recovered (v : Json) : Recovered v := by
  induction v using Json.induct with
  | hnull => exact fun | _ + 1, _, _ => rfl
  | hbool b => exact fun | _ + 1, _, _ => rfl
  | hnumber n => exact fun | _ + 1, _, _ => rfl
  | hstring s => exact fun | _ + 1, _, _ => rfl
  | harray vs ih =>
    intro fuel more hfuel
    rw [lexemes, List.length_cons, List.length_append, List.length_singleton] at hfuel
    -- The brackets are lexemes too, so enough fuel is left for what they enclose.
    obtain ⟨fuel, rfl⟩ : ∃ k, fuel = k + 1 := ⟨fuel - 1, by omega⟩
    rw [lexemes, List.cons_append, List.append_assoc, List.singleton_append]
    cases vs with
    | nil => rfl
    | cons v vs =>
      have hbound : (itemLexemes (v :: vs)).length < fuel := by omega
      have hitems := items?_itemLexemes ih hbound more
      rw [value?, hitems]
      · rfl
      · exact fun ls => itemLexemes_ne_closeArray v vs _ ls
  | hobject ms ih =>
    intro fuel more hfuel
    rw [lexemes, List.length_cons, List.length_append, List.length_singleton] at hfuel
    obtain ⟨fuel, rfl⟩ : ∃ k, fuel = k + 1 := ⟨fuel - 1, by omega⟩
    rw [lexemes, List.cons_append, List.append_assoc, List.singleton_append]
    cases ms with
    | nil => rfl
    | cons m ms =>
      have hbound : (memberLexemes (m :: ms)).length < fuel := by omega
      have hmembers := members?_memberLexemes ih hbound more
      rw [value?, hmembers]
      · rfl
      · intro ls
        cases ms <;> simp [memberLexemes]

end Values

/-! ## The lexemes of printed values -/

mutual

def numbers : Json → List Number
  | number n => [n]
  | array vs => itemNumbers vs
  | object ms => memberNumbers ms
  | _ => []

def itemNumbers : List Json → List Number
  | [] => []
  | v :: vs => v.numbers ++ itemNumbers vs

def memberNumbers : List (String × Json) → List Number
  | [] => []
  | m :: ms => m.2.numbers ++ memberNumbers ms

end

/-- Whether all floating-point numbers in a value are given in their one form. -/
def Canonical (v : Json) : Prop := ∀ n ∈ v.numbers, n.Canonical

theorem canonical_array {vs : List Json} : (array vs).Canonical ↔ ∀ v ∈ vs, v.Canonical := by
  rw [Canonical, numbers]
  induction vs with
  | nil => simp [itemNumbers]
  | cons v vs ih => rw [itemNumbers, List.forall_mem_append, ih, List.forall_mem_cons, Canonical]

theorem canonical_object {ms : List (String × Json)} :
    (object ms).Canonical ↔ ∀ m ∈ ms, m.2.Canonical := by
  rw [Canonical, numbers]
  induction ms with
  | nil => simp [memberNumbers]
  | cons m ms ih => rw [memberNumbers, List.forall_mem_append, ih, List.forall_mem_cons, Canonical]

theorem ends_newline (level : Nat) (cs : List Char) : Ends ((newline level).toList ++ cs) := by
  rw [newline, String.toList_ofList, List.cons_append]
  exact ends_cons (by decide) _

theorem lexes_prettyItems {level : Nat} {v : Json} {vs : List Json}
    (h : ∀ w ∈ v :: vs, Lexes (prettyAt level w).toList w.lexemes) :
    Lexes (prettyItems level (v :: vs)).toList (itemLexemes (v :: vs)) := by
  induction vs generalizing v with
  | nil =>
    rw [prettyItems, String.toList_append]
    exact (h v List.mem_cons_self).space (isSpaces_newline level)
  | cons w vs ih =>
    obtain ⟨hv, hvs⟩ := List.forall_mem_cons.mp h
    have htext : (prettyItems level (v :: w :: vs)).toList =
        ((newline level).toList ++ (prettyAt level v).toList) ++
          ',' :: (prettyItems level (w :: vs)).toList := by
      simp [prettyItems]
    rw [htext]
    exact (hv.space (isSpaces_newline level)).append
      ((ih hvs).mark ',' (by decide) fun _ => rfl) fun _ => ends_comma _

theorem lexes_prettyMembers {level : Nat} {m : String × Json} {ms : List (String × Json)}
    (h : ∀ n ∈ m :: ms, Lexes (prettyAt level n.2).toList n.2.lexemes) :
    Lexes (prettyMembers level (m :: ms)).toList (memberLexemes (m :: ms)) := by
  -- a name, the colon and the blank behind it
  have hname (name : String) {w : List Char} {ls : List Lexeme} (hw : Lexes w ls) :
      Lexes ((newline level).toList ++ ((quote name).toList ++ ':' :: ' ' :: w))
        (.string name :: .colon :: ls) :=
    (((hw.space isSpaces_blank).mark ':' (by decide) fun _ => rfl).quote name).space
      (isSpaces_newline level)
  induction ms generalizing m with
  | nil =>
    have htext : (prettyMembers level [m]).toList =
        (newline level).toList ++
          ((quote m.1).toList ++ ':' :: ' ' :: (prettyAt level m.2).toList) := by
      simp [prettyMembers]
    rw [htext]
    exact hname m.1 (h m List.mem_cons_self)
  | cons n ms ih =>
    obtain ⟨hm, hms⟩ := List.forall_mem_cons.mp h
    have htext : (prettyMembers level (m :: n :: ms)).toList =
        (newline level).toList ++ ((quote m.1).toList ++ ':' :: ' ' ::
          ((prettyAt level m.2).toList ++ ',' :: (prettyMembers level (n :: ms)).toList)) := by
      simp [prettyMembers]
    rw [htext]
    exact hname m.1 (hm.append ((ih hms).mark ',' (by decide) fun _ => rfl) fun _ => ends_comma _)

/-- What is printed over several lines is cut into the lexemes of the value. -/
theorem lexes_prettyAt (level : Nat) {v : Json} (h : v.Canonical) :
    Lexes (prettyAt level v).toList v.lexemes := by
  induction v using Json.induct generalizing level with
  | hnull => exact Lexes.null
  | hbool b =>
    rw [prettyAt]
    exact Lexes.bool b
  | hnumber n => exact Lexes.number (h n (List.mem_singleton_self n))
  | hstring s =>
    have hquote := Lexes.nil.quote s
    rwa [List.append_nil] at hquote
  | harray vs ih =>
    have hclose : Lexes [']'] [.closeArray] := Lexes.nil.mark ']' (by decide) fun _ => rfl
    cases vs with
    | nil =>
      rw [prettyAt, List.isEmpty_nil, if_pos rfl]
      exact hclose.mark '[' (by decide) fun _ => rfl
    | cons v vs =>
      have htext : (prettyAt level (array (v :: vs))).toList =
          '[' :: ((prettyItems (level + 1) (v :: vs)).toList ++
            ((newline level).toList ++ [']'])) := by
        simp [prettyAt]
      have hitems := lexes_prettyItems fun w hw => ih w hw (level + 1) (canonical_array.mp h w hw)
      rw [htext, lexemes]
      exact (hitems.append (hclose.space (isSpaces_newline level)) fun rest => by
        rw [List.append_assoc]
        exact ends_newline level _).mark '[' (by decide) fun _ => rfl
  | hobject ms ih =>
    have hclose : Lexes ['\x7d'] [.closeObject] :=
      Lexes.nil.mark '\x7d' (by decide) fun _ => rfl
    cases ms with
    | nil =>
      rw [prettyAt, List.isEmpty_nil, if_pos rfl]
      exact hclose.mark '\x7b' (by decide) fun _ => rfl
    | cons m ms =>
      have htext : (prettyAt level (object (m :: ms))).toList =
          '\x7b' :: ((prettyMembers (level + 1) (m :: ms)).toList ++
            ((newline level).toList ++ ['\x7d'])) := by
        simp [prettyAt]
      have hmembers := lexes_prettyMembers fun n hn =>
        ih n hn (level + 1) (canonical_object.mp h n hn)
      rw [htext, lexemes]
      exact (hmembers.append (hclose.space (isSpaces_newline level)) fun rest => by
        rw [List.append_assoc]
        exact ends_newline level _).mark '\x7b' (by decide) fun _ => rfl

/-- A value is recovered from what is printed over several lines. -/
theorem parse?_pretty {v : Json} (h : v.Canonical) : parse? v.pretty = some v := by
  have hlexes : Lexes v.pretty.toList v.lexemes := lexes_prettyAt 0 h
  have hlist : Lexeme.listOf? (v.pretty.toList.length + 1) v.pretty.toList = some v.lexemes := by
    obtain ⟨k, hk⟩ := Nat.exists_eq_add_of_le hlexes.length_le
    have hread := hlexes.read (k + 1) [] ends_nil
    rw [List.append_nil] at hread
    rw [hk, Nat.add_assoc, hread]
    simp [Lexeme.listOf?, skipSpace]
  have hvalue := recovered v v.lexemes.length [] (Nat.le_refl _)
  rw [List.append_nil] at hvalue
  rw [parse?, hlist]
  simp only [Option.bind_eq_bind, Option.bind_some, hvalue]

end Courseware.Json
