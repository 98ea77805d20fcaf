import Courseware.Proofs.Plan
import Courseware.Json.Decoder
import Mathlib.Algebra.Group.Nat.Defs

/-!
# What decoded values satisfy

What holds of a record before its members are read, and is kept by each of its fields,
holds of every record that is decoded.
-/

namespace Courseware.Json.Decoder

/-! ## Simple values -/

theorem map_eq_ok_iff {α β : Type} {x : Except Fault α} {f : α → β} {b : β} :
    x.map f = .ok b ↔ ∃ a, x = .ok a ∧ f a = b := by
  cases x <;> simp [Except.map]

theorem natural_lt {bits n room : Nat} {d : Draft} (h : natural bits room d = .ok n) :
    n < 2 ^ bits := by
  obtain ⟨i, hi, rfl⟩ := map_eq_ok_iff.mp h
  rw [integer.eq_def] at hi
  split at hi
  · split at hi
    · rename_i hrange
      obtain rfl := Except.ok.inj hi
      have hpow : (Nat.pow 2 bits : Nat) = 2 ^ bits := rfl
      have hpositive : 0 < 2 ^ bits := Nat.two_pow_pos bits
      omega
    · cases hi
  · cases hi

theorem exists_of_option {α : Type} {d : Decoder α} {room : Nat} {x : Draft} {a : α}
    (h : option d room x = .ok (some a)) : d room x = .ok a := by
  rw [option.eq_def] at h
  split at h
  · cases h
  · cases h
  · obtain ⟨b, hb, heq⟩ := map_eq_ok_iff.mp h
    rw [hb, Option.some.inj heq]

theorem unlessFault_eq_ok {α : Type} {close : Option Fault} {a b : α}
    (h : unlessFault close a = .ok b) : a = b := by
  cases close with
  | none => exact Except.ok.inj h
  | some f => cases h

theorem nested_eq_ok {α : Type} {room : Nat} {inside : Nat → Except Fault α} {a : α}
    (h : nested room inside = .ok a) : ∃ room, inside room = .ok a := by
  cases room with
  | zero => cases h
  | succ room => exact ⟨room, h⟩

theorem exists_of_mem_mapM {α β : Type} {f : α → Except Fault β} {as : List α}
    {bs : List β} (h : as.mapM f = .ok bs) {b : β} (hb : b ∈ bs) :
    ∃ a ∈ as, f a = .ok b := by
  induction as generalizing bs with
  | nil =>
    cases h
    cases hb
  | cons a as ih =>
    rw [List.mapM_cons] at h
    obtain ⟨c, hc, h⟩ := bind_eq_ok_iff.mp h
    obtain ⟨cs, hcs, h⟩ := bind_eq_ok_iff.mp h
    rw [← Except.ok.inj h] at hb
    rcases List.mem_cons.mp hb with rfl | hb
    · exact ⟨a, List.mem_cons_self, hc⟩
    · obtain ⟨x, hx, hfx⟩ := ih hcs hb
      exact ⟨x, List.mem_cons_of_mem _ hx, hfx⟩

theorem exists_of_mem_list {α : Type} {d : Decoder α} {room : Nat} {x : Draft}
    {as : List α} (h : list d room x = .ok as) {a : α} (ha : a ∈ as) :
    ∃ room x, d room x = .ok a := by
  rw [list.eq_def] at h
  split at h
  · obtain ⟨inside, h⟩ := nested_eq_ok h
    obtain ⟨values, hvalues, h⟩ := bind_eq_ok_iff.mp h
    rw [← unlessFault_eq_ok h] at ha
    obtain ⟨x, -, hx⟩ := exists_of_mem_mapM hvalues ha
    exact ⟨inside, x, hx⟩
  · cases h

/-! ## Records -/

variable {σ : Type} {P : σ → Prop}

/-- Whether a field changes records in such a way that a property is kept. -/
def Field.Keeps (P : σ → Prop) (f : Field σ) : Prop :=
  ∀ room x change, f.read room x = .ok change → ∀ s, P s → P (change s)

theorem Field.keeps_of {α : Type} {name : String} {d : Decoder α} {set : σ → α → σ}
    (h : ∀ room x a, d room x = .ok a → ∀ s, P s → P (set s a)) :
    (Field.of name d set).Keeps P := by
  intro room x change hread s hs
  obtain ⟨a, ha, rfl⟩ := map_eq_ok_iff.mp hread
  exact h room x a ha s hs

/-- A field that has nothing to do with a property. -/
theorem Field.keeps_other {α : Type} {name : String} {d : Decoder α} {set : σ → α → σ}
    (h : ∀ s a, P s → P (set s a)) : (Field.of name d set).Keeps P :=
  Field.keeps_of fun _ _ a _ s hs => h s a hs

theorem readNamed_keeps {fields : List (Field σ)} (hfields : ∀ f ∈ fields, f.Keeps P)
    {room : Nat} {read : List String} {start r : σ} {members : List (Draft × Draft)}
    (hstart : P start) (h : readNamed fields room read start members = .ok r) : P r := by
  induction members generalizing read start with
  | nil =>
    rw [readNamed] at h
    rw [← Except.ok.inj h]
    exact hstart
  | cons m members ih =>
    rw [readNamed] at h
    obtain ⟨name, -, h⟩ := bind_eq_ok_iff.mp h
    split at h
    · obtain ⟨_, -, h⟩ := bind_eq_ok_iff.mp h
      exact ih hstart h
    · rename_i f hfind
      split at h
      · cases h
      · obtain ⟨change, hchange, h⟩ := bind_eq_ok_iff.mp h
        have hf := hfields f (List.mem_of_find?_eq_some hfind)
        exact ih (hf _ _ _ hchange _ hstart) h

theorem readListed_keeps {fields : List (Field σ)} (hfields : ∀ f ∈ fields, f.Keeps P)
    {room : Nat} {start r : σ} {items : List Draft} (hstart : P start)
    (h : readListed room start fields items = .ok r) : P r := by
  induction fields generalizing start items with
  | nil =>
    cases items with
    | nil =>
      rw [← Except.ok.inj h]
      exact hstart
    | cons x items => cases h
  | cons f fields ih =>
    obtain ⟨hf, hrest⟩ := List.forall_mem_cons.mp hfields
    cases items with
    | nil =>
      rw [← Except.ok.inj h]
      exact hstart
    | cons x items =>
      rw [readListed] at h
      obtain ⟨change, hchange, h⟩ := bind_eq_ok_iff.mp h
      exact ih hrest (hf _ _ _ hchange _ hstart) h

/-- A property that every field keeps holds of every record. -/
theorem record_keeps {start r : σ} {fields : List (Field σ)} (hstart : P start)
    (hfields : ∀ f ∈ fields, f.Keeps P) {room : Nat} {d : Draft}
    (h : record start fields room d = .ok r) : P r := by
  rw [record.eq_def] at h
  split at h
  · obtain ⟨inside, h⟩ := nested_eq_ok h
    obtain ⟨read, hread, h⟩ := bind_eq_ok_iff.mp h
    rw [← unlessFault_eq_ok h]
    exact readNamed_keeps hfields hstart hread
  · obtain ⟨inside, h⟩ := nested_eq_ok h
    obtain ⟨read, hread, h⟩ := bind_eq_ok_iff.mp h
    rw [← unlessFault_eq_ok h]
    exact readListed_keeps hfields hstart hread
  · cases h

end Courseware.Json.Decoder
