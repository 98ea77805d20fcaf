import Courseware.Proofs.Json.NumeralTexts
import Courseware.Script.Template

/-!
# Printed values are read

What is printed on one line, over several lines or inside a script element stands for
the value that was printed.
-/

namespace Courseware.Json

/-- What holds of arrays and objects when it holds of what they hold, and of all other
values, holds of every value. -/
theorem induct {P : Json → Prop} (hnull : P null) (hbool : ∀ b, P (bool b))
    (hnumber : ∀ n, P (number n)) (hstring : ∀ s, P (string s))
    (harray : ∀ vs, (∀ v ∈ vs, P v) → P (array vs))
    (hobject : ∀ ms, (∀ m ∈ ms, P m.2) → P (object ms)) (v : Json) : P v := by
  refine @Json.rec P (fun vs => ∀ v ∈ vs, P v) (fun ms => ∀ m ∈ ms, P m.2) (fun m => P m.2)
    hnull hbool hnumber hstring harray hobject ?_ ?_ ?_ ?_ ?_ v
  · exact List.forall_mem_nil _
  · exact fun v vs hv hvs => List.forall_mem_cons.mpr ⟨hv, hvs⟩
  · exact List.forall_mem_nil _
  · exact fun m ms hm hms => List.forall_mem_cons.mpr ⟨hm, hms⟩
  · exact fun _ _ h => h

/-! ## Legible values -/

mutual

/-- Whether all numbers in a value are read back. -/
def Legible : Json → Prop
  | number n => n.Legible
  | array vs => LegibleItems vs
  | object ms => LegibleMembers ms
  | _ => True

/-- Whether all numbers in some items are read back. -/
def LegibleItems : List Json → Prop
  | [] => True
  | v :: vs => v.Legible ∧ LegibleItems vs

/-- Whether all numbers in some members are read back. -/
def LegibleMembers : List (String × Json) → Prop
  | [] => True
  | m :: ms => m.2.Legible ∧ LegibleMembers ms

end

theorem legible_array {vs : List Json} : (array vs).Legible ↔ ∀ v ∈ vs, v.Legible := by
  rw [Legible]
  induction vs with
  | nil => simp [LegibleItems]
  | cons v vs ih => simp [LegibleItems, ih]

theorem legible_object {ms : List (String × Json)} :
    (object ms).Legible ↔ ∀ m ∈ ms, m.2.Legible := by
  rw [Legible]
  induction ms with
  | nil => simp [LegibleMembers]
  | cons m ms ih => simp [LegibleMembers, ih]

@[simp] theorem legible_string (s : String) : (string s).Legible := trivial

@[simp] theorem legible_bool (b : Bool) : (bool b).Legible := trivial

@[simp] theorem legible_null : null.Legible := trivial

/-! ## What values are read as -/

/-- What the text of a number is read as, be it the number or one near to it. -/
def Number.readDraft (n : Number) : Draft :=
  (readValue (2 * n.text.toList.length) n.text.toList).1

theorem Number.readDraft_eq {n : Number} {d : Draft} (h : Reads n.text.toList d) :
    n.readDraft = d := by
  have hread := h.read (2 * n.text.toList.length) [] (Nat.le_refl _) ends_nil
  rw [List.append_nil] at hread
  rw [readDraft, hread]

theorem reads_number (n : Number) : Reads n.text.toList n.readDraft := by
  obtain ⟨r, hread⟩ := exists_reads_text n
  rwa [Number.readDraft_eq hread]

mutual

/-- The draft that the text of a value is read as: that of the value, but for its numbers. -/
def readDraft : Json → Draft
  | null => .null
  | bool b => .bool b
  | number n => n.readDraft
  | string s => .string (.ok s)
  | array vs => .array (readItemDrafts vs) none
  | object ms => .object (readMemberDrafts ms) none

def readItemDrafts : List Json → List Draft
  | [] => []
  | v :: vs => v.readDraft :: readItemDrafts vs

def readMemberDrafts : List (String × Json) → List (Draft × Draft)
  | [] => []
  | m :: ms => (.string (.ok m.1), m.2.readDraft) :: readMemberDrafts ms

end

theorem readItemDrafts_eq {vs : List Json} (h : ∀ v ∈ vs, v.readDraft = v.toDraft) :
    readItemDrafts vs = itemDrafts vs := by
  induction vs with
  | nil => rfl
  | cons v vs ih =>
    obtain ⟨hv, hvs⟩ := List.forall_mem_cons.mp h
    rw [readItemDrafts, itemDrafts, hv, ih hvs]

theorem readMemberDrafts_eq {ms : List (String × Json)}
    (h : ∀ m ∈ ms, m.2.readDraft = m.2.toDraft) : readMemberDrafts ms = memberDrafts ms := by
  induction ms with
  | nil => rfl
  | cons m ms ih =>
    obtain ⟨hm, hms⟩ := List.forall_mem_cons.mp h
    rw [readMemberDrafts, memberDrafts, hm, ih hms]

/-- A value whose numbers are read back is read as itself. -/
theorem readDraft_eq_toDraft {v : Json} (h : v.Legible) : v.readDraft = v.toDraft := by
  induction v using Json.induct with
  | hnull => rfl
  | hbool b => rfl
  | hnumber n => exact Number.readDraft_eq h.read
  | hstring s => rfl
  | harray vs ih =>
    rw [readDraft, toDraft, readItemDrafts_eq fun v hv => ih v hv (legible_array.mp h v hv)]
  | hobject ms ih =>
    rw [readDraft, toDraft, readMemberDrafts_eq fun m hm => ih m hm (legible_object.mp h m hm)]

/-! ## Rewritten texts -/

/-- A change of texts that leaves everything but string literals as it is. -/
structure Rewrites (f : List Char → List Char) : Prop where
  /-- Only what looks like the start of an end tag is changed. -/
  append : ∀ u w, ¬ (u.getLast? = some '<' ∧ w.head? = some '/') → f (u ++ w) = f u ++ f w
  plain : ∀ w, '<' ∉ w → f w = w
  quote : ∀ s, SpellsString (f (quote s).toList) s

theorem rewrites_id : Rewrites id where
  append _ _ _ := rfl
  plain _ _ := rfl
  quote := spellsString_quote

open Script (keepOpen)

theorem keepOpen_append {u w : List Char}
    (h : ¬ (u.getLast? = some '<' ∧ w.head? = some '/')) :
    keepOpen (u ++ w) = keepOpen u ++ keepOpen w := by
  induction u using Script.keepOpen.induct with
  | case1 cs ih =>
    have hcs : ¬ (cs.getLast? = some '<' ∧ w.head? = some '/') := by
      rintro ⟨hlast, hhead⟩
      refine h ⟨?_, hhead⟩
      rw [List.getLast?_cons, List.getLast?_cons, hlast]
      rfl
    simp only [List.cons_append, keepOpen, ih hcs]
  | case2 c cs hne ih =>
    have hcs : ¬ (cs.getLast? = some '<' ∧ w.head? = some '/') := by
      rintro ⟨hlast, hhead⟩
      refine h ⟨?_, hhead⟩
      rw [List.getLast?_cons, hlast]
      rfl
    have hopen : ∀ ds, c = '<' → cs ++ w = '/' :: ds → False := by
      rintro ds rfl hds
      cases cs with
      | nil => exact h ⟨rfl, by rw [← List.nil_append w, hds]; rfl⟩
      | cons d cs => exact hne cs rfl (by rw [(List.cons.inj hds).1])
    rw [List.cons_append, keepOpen, keepOpen, ih hcs, List.cons_append]
    · exact hne
    · exact hopen
  | case3 => rw [List.nil_append, keepOpen, List.nil_append]

theorem keepOpen_eq_self {w : List Char} (h : '<' ∉ w) : keepOpen w = w := by
  induction w with
  | nil => rw [keepOpen]
  | cons c cs ih =>
    rw [keepOpen, ih fun hmem => h (List.mem_cons_of_mem _ hmem)]
    rintro ds rfl -
    exact h List.mem_cons_self

/-- A character is written as it is or after a backslash, without what markup is made of. -/
theorem escapeChar_cases (c : Char) :
    escapeChar c = [c] ∨ ∃ ds, escapeChar c = '\\' :: ds ∧ '<' ∉ ds ∧ '=' ∉ ds := by
  by_cases hsmall : c.toNat < 128
  · have hall : ∀ n < 128, escapeChar (Char.ofNat n) = [Char.ofNat n] ∨
        (escapeChar (Char.ofNat n) = '\\' :: (escapeChar (Char.ofNat n)).tail ∧
          '<' ∉ (escapeChar (Char.ofNat n)).tail ∧
          '=' ∉ (escapeChar (Char.ofNat n)).tail) := by
      decide
    have hc := hall c.toNat hsmall
    rw [Char.ofNat_toNat] at hc
    exact hc.imp_right fun h => ⟨_, h⟩
  · have hne : ∀ x : Char, x.toNat < 128 → c ≠ x := by
      rintro x hx rfl
      exact hsmall hx
    left
    rw [escapeChar, if_neg (hne _ (by decide)), if_neg (hne _ (by decide)),
      if_neg (hne _ (by decide)), if_neg (hne _ (by decide)), if_neg (hne _ (by decide)),
      if_neg (hne _ (by decide)), if_neg (hne _ (by decide)), if_neg (by omega)]

theorem lt_not_mem_escapeChar {c : Char} (h : c ≠ '<') : '<' ∉ escapeChar c := by
  rcases escapeChar_cases c with hself | ⟨ds, hescape, hds, -⟩
  · simp [hself, h.symm]
  · simp [hescape, hds]

/-- Only a slash begins with a slash. -/
theorem exists_escapeChar {c : Char} (h : c ≠ '/') :
    ∃ x xs, escapeChar c = x :: xs ∧ x ≠ '/' := by
  rcases escapeChar_cases c with hself | ⟨ds, hescape, -⟩
  · exact ⟨c, [], hself, h⟩
  · exact ⟨'\\', ds, hescape, by decide⟩

/-- What is inside a string literal still stands for the same string. -/
theorem spellsChars_keepOpen (cs : List Char) :
    SpellsChars (keepOpen (cs.flatMap escapeChar)) cs := by
  have hless : escapeChar '<' = ['<'] := by decide
  have hslash : escapeChar '/' = ['/'] := by decide
  induction cs using Script.keepOpen.induct with
  | case1 cs ih =>
    have hpair : SpellsChars ['<', '\\', '/'] ['<', '/'] :=
      (spellsChars_escapeChar '<').append fun _ _ => rfl
    rw [List.flatMap_cons, List.flatMap_cons, hless, hslash]
    exact hpair.append ih
  | case2 c cs hne ih =>
    have hsplit : keepOpen (escapeChar c ++ cs.flatMap escapeChar) =
        keepOpen (escapeChar c) ++ keepOpen (cs.flatMap escapeChar) := by
      -- An escape ends in a bracket only if it is that of a bracket, and then no slash follows.
      apply keepOpen_append
      rintro ⟨hlast, hhead⟩
      have hc : c = '<' := Decidable.byContradiction fun hc =>
        lt_not_mem_escapeChar hc (List.mem_of_getLast? hlast)
      cases cs with
      | nil => cases hhead
      | cons d cs =>
        have hd : d ≠ '/' := fun hd => hne cs hc (by rw [hd])
        obtain ⟨x, xs, hescape, hx⟩ := exists_escapeChar hd
        rw [List.flatMap_cons, hescape] at hhead
        exact hx (Option.some.inj hhead)
    have hsame : keepOpen (escapeChar c) = escapeChar c := by
      by_cases hc : c = '<'
      · subst hc
        rfl
      · exact keepOpen_eq_self (lt_not_mem_escapeChar hc)
    rw [List.flatMap_cons, hsplit, hsame]
    exact (spellsChars_escapeChar c).append ih
  | case3 => exact SpellsChars.nil

theorem rewrites_keepOpen : Rewrites keepOpen where
  append _ _ := keepOpen_append
  plain _ := keepOpen_eq_self
  quote s := by
    refine ⟨keepOpen (s.toList.flatMap escapeChar), ?_, spellsChars_keepOpen s.toList⟩
    have hquote : (quote s).toList =
        ['"'] ++ (s.toList.flatMap escapeChar ++ ['"']) := by
      simp [quote]
    rw [hquote, keepOpen_append (by simp), keepOpen_append (by simp)]
    rfl

/-! ## On one line -/

section Compact

variable {f : List Char → List Char}

/-- A part that begins with a character other than a slash is changed on its own. -/
theorem Rewrites.append_cons (hf : Rewrites f) (u w : List Char) {c : Char} (hc : c ≠ '/')
    (hless : c ≠ '<') : f (u ++ c :: w) = f u ++ c :: f w := by
  rw [hf.append u (c :: w) (by simp [hc]), ← List.singleton_append,
    hf.append [c] w (by simp [hless]), hf.plain [c] (by simp [hless.symm])]
  rfl

theorem Rewrites.nil (hf : Rewrites f) : f [] = [] := hf.plain [] (by simp)

theorem Rewrites.cons (hf : Rewrites f) (w : List Char) {c : Char} (hc : c ≠ '/')
    (hless : c ≠ '<') : f (c :: w) = c :: f w := by
  have h := hf.append_cons [] w hc hless
  rwa [hf.nil] at h

/-- Brackets are left as they are. -/
theorem Rewrites.brackets (hf : Rewrites f) (w : List Char) {a b : Char}
    (ha : a ≠ '/' ∧ a ≠ '<') (hb : b ≠ '/' ∧ b ≠ '<') :
    f (a :: (w ++ [b])) = a :: (f w ++ [b]) := by
  rw [hf.cons _ ha.1 ha.2, hf.append_cons w [] hb.1 hb.2, hf.nil]

theorem isSpaces_nil : IsSpaces [] := by
  intro c hc
  cases hc

/-- The name of a member on one line. -/
theorem readsKey_compact (hf : Rewrites f) (name : String) :
    ReadsKey (f (quote name).toList ++ [':']) name :=
  readsKey isSpaces_nil (hf.quote name) isSpaces_nil

theorem reads_compactItems (hf : Rewrites f) {v : Json} {vs : List Json}
    (h : ∀ w ∈ v :: vs, Reads (f w.compact.toList) w.readDraft) :
    ReadsItems (f (compactItems (v :: vs)).toList) (readItemDrafts (v :: vs)) := by
  induction vs generalizing v with
  | nil =>
    have hread := ReadsItems.single (h v List.mem_cons_self) isSpaces_nil
    rwa [List.append_nil] at hread
  | cons w vs ih =>
    obtain ⟨hv, hvs⟩ := List.forall_mem_cons.mp h
    have htext : (compactItems (v :: w :: vs)).toList =
        v.compact.toList ++ ',' :: (compactItems (w :: vs)).toList := by
      simp [compactItems]
    rw [htext, hf.append_cons _ _ (by decide) (by decide)]
    exact ReadsItems.cons hv (ih hvs)

theorem reads_compactMembers (hf : Rewrites f) {m : String × Json}
    {ms : List (String × Json)}
    (h : ∀ n ∈ m :: ms, Reads (f n.2.compact.toList) n.2.readDraft) :
    ReadsMembers (f (compactMembers (m :: ms)).toList) (readMemberDrafts (m :: ms)) := by
  induction ms generalizing m with
  | nil =>
    have htext : (compactMembers [m]).toList =
        (quote m.1).toList ++ ':' :: m.2.compact.toList := by
      simp [compactMembers]
    have hread := ReadsMembers.single (readsKey_compact hf m.1) (h m List.mem_cons_self)
      isSpaces_nil
    rw [List.append_nil, List.append_assoc, List.singleton_append] at hread
    rwa [htext, hf.append_cons _ _ (by decide) (by decide)]
  | cons n ms ih =>
    obtain ⟨hm, hms⟩ := List.forall_mem_cons.mp h
    have htext : (compactMembers (m :: n :: ms)).toList = (quote m.1).toList ++
        ':' :: (m.2.compact.toList ++ ',' :: (compactMembers (n :: ms)).toList) := by
      simp [compactMembers]
    have hread := ReadsMembers.cons (readsKey_compact hf m.1) hm (ih hms)
    rw [List.append_assoc, List.singleton_append] at hread
    rwa [htext, hf.append_cons _ _ (by decide) (by decide),
      hf.append_cons _ _ (by decide) (by decide)]

/-- The text of every value is read, and rewriting it makes no difference. -/
theorem reads_rewritten (hf : Rewrites f) (v : Json) :
    Reads (f v.compact.toList) v.readDraft := by
  induction v using Json.induct with
  | hnull =>
    rw [compact, hf.plain _ (by decide)]
    exact reads_null
  | hbool b =>
    rw [compact, hf.plain _ (by cases b <;> decide)]
    exact reads_bool b
  | hnumber n =>
    rw [compact, hf.plain _ (lt_not_mem_text n)]
    exact reads_number n
  | hstring s => exact reads_string (hf.quote s)
  | harray vs ih =>
    have htext : (array vs).compact.toList =
        '[' :: ((compactItems vs).toList ++ [']']) := by
      simp [compact]
    rw [htext, hf.brackets _ (by decide) (by decide)]
    cases vs with
    | nil =>
      rw [compactItems, String.toList_empty, hf.nil]
      exact reads_array_nil
    | cons v vs => exact reads_array (reads_compactItems hf ih)
  | hobject ms ih =>
    have htext : (object ms).compact.toList =
        '\x7b' :: ((compactMembers ms).toList ++ ['\x7d']) := by
      simp [compact]
    rw [htext, hf.brackets _ (by decide) (by decide)]
    cases ms with
    | nil =>
      rw [compactMembers, String.toList_empty, hf.nil]
      exact reads_object_nil
    | cons m ms => exact reads_object (reads_compactMembers hf ih)

theorem reads_compact (hf : Rewrites f) {v : Json} (h : v.Legible) :
    Reads (f v.compact.toList) v.toDraft :=
  readDraft_eq_toDraft h ▸ reads_rewritten hf v

end Compact

/-- What stands inside a script element is read as the value. -/
theorem reads_inlined {v : Json} (h : v.Legible) :
    Reads (Script.inlined v).toList v.toDraft := by
  rw [Script.inlined, String.toList_ofList]
  exact reads_compact rewrites_keepOpen h

/-! ## Over several lines -/

theorem isSpaces_newline (level : Nat) : IsSpaces (newline level).toList := by
  intro c hc
  rw [newline, String.toList_ofList, List.mem_cons] at hc
  rcases hc with rfl | hc
  · decide
  · rw [List.eq_of_mem_replicate hc]
    decide

theorem isSpaces_blank : IsSpaces [' '] :=
  List.forall_mem_singleton.mpr (by decide)

/-- The name of a member on its line. -/
theorem readsKey_pretty (level : Nat) (name : String) :
    ReadsKey ((newline level).toList ++ ((quote name).toList ++ [':', ' '])) name :=
  readsKey (isSpaces_newline level) (spellsString_quote name) isSpaces_blank

theorem reads_prettyItems {level : Nat} {v : Json} {vs : List Json} {s : List Char}
    (hs : IsSpaces s) (h : ∀ w ∈ v :: vs, Reads (prettyAt level w).toList w.toDraft) :
    ReadsItems ((prettyItems level (v :: vs)).toList ++ s) (itemDrafts (v :: vs)) := by
  induction vs generalizing v with
  | nil =>
    rw [prettyItems, String.toList_append]
    exact ReadsItems.single
      ((h v List.mem_cons_self).space (isSpaces_newline level)) hs
  | cons w vs ih =>
    obtain ⟨hv, hvs⟩ := List.forall_mem_cons.mp h
    have htext : (prettyItems level (v :: w :: vs)).toList ++ s =
        ((newline level).toList ++ (prettyAt level v).toList) ++
          ',' :: ((prettyItems level (w :: vs)).toList ++ s) := by
      simp [prettyItems]
    rw [htext]
    exact ReadsItems.cons (hv.space (isSpaces_newline level)) (ih hvs)

theorem reads_prettyMembers {level : Nat} {m : String × Json}
    {ms : List (String × Json)} {s : List Char} (hs : IsSpaces s)
    (h : ∀ n ∈ m :: ms, Reads (prettyAt level n.2).toList n.2.toDraft) :
    ReadsMembers ((prettyMembers level (m :: ms)).toList ++ s) (memberDrafts (m :: ms)) := by
  induction ms generalizing m with
  | nil =>
    have htext : (prettyMembers level [m]).toList ++ s =
        ((newline level).toList ++ ((quote m.1).toList ++ [':', ' '])) ++
          ((prettyAt level m.2).toList ++ s) := by
      simp [prettyMembers]
    rw [htext]
    exact ReadsMembers.single (readsKey_pretty level m.1) (h m List.mem_cons_self) hs
  | cons n ms ih =>
    obtain ⟨hm, hms⟩ := List.forall_mem_cons.mp h
    have htext : (prettyMembers level (m :: n :: ms)).toList ++ s =
        ((newline level).toList ++ ((quote m.1).toList ++ [':', ' '])) ++
          ((prettyAt level m.2).toList ++
            ',' :: ((prettyMembers level (n :: ms)).toList ++ s)) := by
      simp [prettyMembers]
    rw [htext]
    exact ReadsMembers.cons (readsKey_pretty level m.1) hm (ih hms)

theorem reads_prettyAt (level : Nat) {v : Json} (h : v.Legible) :
    Reads (prettyAt level v).toList v.toDraft := by
  induction v using Json.induct generalizing level with
  | hnull => exact reads_null
  | hbool b =>
    rw [prettyAt]
    exact reads_bool b
  | hnumber n => exact h.read
  | hstring s => exact reads_string (spellsString_quote s)
  | harray vs ih =>
    cases vs with
    | nil =>
      rw [prettyAt, List.isEmpty_nil, if_pos rfl]
      exact reads_array_nil
    | cons v vs =>
      have htext : (prettyAt level (array (v :: vs))).toList =
          '[' :: (((prettyItems (level + 1) (v :: vs)).toList ++ (newline level).toList) ++
            [']']) := by
        simp [prettyAt]
      rw [htext]
      exact reads_array (reads_prettyItems (isSpaces_newline level) fun w hw =>
        ih w hw (level + 1) (legible_array.mp h w hw))
  | hobject ms ih =>
    cases ms with
    | nil =>
      rw [prettyAt, List.isEmpty_nil, if_pos rfl]
      exact reads_object_nil
    | cons m ms =>
      have htext : (prettyAt level (object (m :: ms))).toList =
          '\x7b' :: (((prettyMembers (level + 1) (m :: ms)).toList ++
            (newline level).toList) ++ ['\x7d']) := by
        simp [prettyAt]
      rw [htext]
      exact reads_object (reads_prettyMembers (isSpaces_newline level) fun n hn =>
        ih n hn (level + 1) (legible_object.mp h n hn))

/-- What is printed over several lines is read as the value. -/
theorem reads_pretty {v : Json} (h : v.Legible) : Reads v.pretty.toList v.toDraft :=
  reads_prettyAt 0 h

end Courseware.Json
