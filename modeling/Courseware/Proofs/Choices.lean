import Courseware.Course.Block
import Mathlib.Data.List.Basic

/-!
# Which choices are correct

The choices of a question are the items of the first array under the names that they go by. A
choice is correct by its own mark or because its position is named by a whole number; what else
stands among the positions makes no difference, and neither does a position that is named twice or
that no choice has.
-/

namespace Courseware

/-! ## Reading payloads -/

namespace Payload

/-- Whether some items are those of the first array under some names. Where there is no array there
are no items. -/
inductive FirstArray (p : Payload) : List String → List Json → Prop
  | none : FirstArray p [] []
  | here {name : String} {vs : List Json} (h : findEntry name p = some (.array vs))
      (names : List String) : FirstArray p (name :: names) vs
  | later {name : String} {names : List String} {vs : List Json}
      (h : ∀ us, findEntry name p ≠ some (.array us)) (hrest : FirstArray p names vs) :
      FirstArray p (name :: names) vs

/-- Whether one of some names says yes, by a truth value or by a text. -/
def Affirms (p : Payload) (names : List String) : Prop :=
  ∃ name ∈ names, findEntry name p = some (.bool true) ∨ findEntry name p = some (.string "true")

/-- Whether one of some names holds a whole number, alone or among others. -/
def NamesPosition (p : Payload) (names : List String) (i : Nat) : Prop :=
  ∃ name ∈ names, findEntry name p = some (.number (.integer i)) ∨
    ∃ vs, findEntry name p = some (.array vs) ∧ .number (.integer i) ∈ vs

theorem mem_values_iff {p : Payload} {names : List String} {v : Json} :
    v ∈ p.values names ↔ ∃ name ∈ names, findEntry name p = some v :=
  List.mem_filterMap

theorem values_congr {p p' : Payload} {names : List String}
    (h : ∀ name ∈ names, findEntry name p = findEntry name p') :
    p.values names = p'.values names :=
  List.filterMap_congr fun name hname => h name hname

theorem items?_eq_some_iff {v : Json} {vs : List Json} : items? v = some vs ↔ v = .array vs := by
  cases v <;> simp [items?]

theorem affirms_iff {v : Json} : affirms v = true ↔ v = .bool true ∨ v = .string "true" := by
  cases v <;> simp [affirms]

theorem list_cons (p : Payload) (name : String) (names : List String) :
    p.list (name :: names) = ((findEntry name p).bind items?).getD (p.list names) := by
  cases hfound : findEntry name p with
  | none => simp [list, values, hfound]
  | some v =>
    have hvalues : p.values (name :: names) = v :: p.values names := by simp [values, hfound]
    rw [list, hvalues, List.findSome?_cons, Option.bind_some]
    cases items? v <;> rfl

theorem firstArray_list (p : Payload) (names : List String) :
    FirstArray p names (p.list names) := by
  induction names with
  | nil => exact .none
  | cons name names ih =>
    rw [list_cons]
    by_cases harray : ∃ vs, findEntry name p = some (.array vs)
    · obtain ⟨vs, hvs⟩ := harray
      rw [hvs]
      exact .here hvs names
    · have hnone : (findEntry name p).bind items? = none := by
        rw [Option.bind_eq_none_iff]
        intro v hv
        by_contra hitems
        obtain ⟨vs, hvs⟩ := Option.ne_none_iff_exists'.mp hitems
        exact harray ⟨vs, items?_eq_some_iff.mp hvs ▸ hv⟩
      rw [hnone]
      exact .later (fun vs hvs => harray ⟨vs, hvs⟩) ih

theorem flag_iff {p : Payload} {names : List String} :
    p.flag names = true ↔ p.Affirms names := by
  rw [flag, List.any_eq_true]
  simp only [mem_values_iff, affirms_iff]
  constructor
  · rintro ⟨v, ⟨name, hname, hv⟩, rfl | rfl⟩
    · exact ⟨name, hname, .inl hv⟩
    · exact ⟨name, hname, .inr hv⟩
  · rintro ⟨name, hname, h | h⟩
    · exact ⟨_, ⟨name, hname, h⟩, .inl rfl⟩
    · exact ⟨_, ⟨name, hname, h⟩, .inr rfl⟩

end Payload

/-! ## Positions -/

theorem Json.nat?_eq_some_iff {v : Json} {n : Nat} :
    v.nat? = some n ↔ v = .number (.integer n) := by
  constructor
  · intro h
    rw [Json.nat?.eq_def] at h
    split at h
    · rename_i m
      split at h
      · rename_i hm
        rw [← Option.some.inj h, Int.toNat_of_nonneg hm]
      · cases h
    · cases h
  · rintro rfl
    simp [Json.nat?]

theorem mem_positions_iff {v : Json} {i : Nat} :
    i ∈ positions v ↔
      v = .number (.integer i) ∨ ∃ vs, v = .array vs ∧ .number (.integer i) ∈ vs := by
  by_cases harray : ∃ vs, v = .array vs
  · obtain ⟨vs, rfl⟩ := harray
    simp [positions, Json.nat?_eq_some_iff]
  · have hpositions : positions v = v.nat?.toList := by
      rw [positions.eq_def]
      split
      · rename_i vs
        exact absurd ⟨vs, rfl⟩ harray
      · rfl
    rw [hpositions, Option.mem_toList, Json.nat?_eq_some_iff]
    constructor
    · exact .inl
    · rintro (h | ⟨vs, h, -⟩)
      · exact h
      · exact absurd ⟨vs, h⟩ harray

/-- The names under which positions of correct choices are given. -/
def positionNames : List String := ["correctAnswer", "correctIndex", "correctAnswers"]

/-- The positions of correct choices as they are given. -/
def namedPositions (p : Payload) : List Nat := (p.values positionNames).flatMap positions

theorem mem_namedPositions_iff {p : Payload} {i : Nat} :
    i ∈ namedPositions p ↔ p.NamesPosition positionNames i := by
  rw [namedPositions, List.mem_flatMap]
  simp only [Payload.mem_values_iff, mem_positions_iff]
  constructor
  · rintro ⟨v, ⟨name, hname, hv⟩, rfl | ⟨vs, rfl, hmem⟩⟩
    · exact ⟨name, hname, .inl hv⟩
    · exact ⟨name, hname, .inr ⟨vs, hv, hmem⟩⟩
  · rintro ⟨name, hname, h | ⟨vs, h, hmem⟩⟩
    · exact ⟨_, ⟨name, hname, h⟩, .inl rfl⟩
    · exact ⟨_, ⟨name, hname, h⟩, .inr ⟨vs, rfl, hmem⟩⟩

/-! ## Marking choices one after the other -/

/-- Marks the choice at a position as correct, if there is one. -/
def markAt (cs : List Choice) (i : Nat) : List Choice :=
  cs.modify i fun c => { c with correct := true }

/-- A choice with the mark that it gets when its position is among some positions. -/
def Choice.markedBy (is : List Nat) (i : Nat) (c : Choice) : Choice :=
  { c with correct := c.correct || is.contains i }

theorem getElem?_markAt (cs : List Choice) (i j : Nat) :
    (markAt cs i)[j]? = cs[j]?.map (Choice.markedBy [i] j) := by
  rw [markAt, List.getElem?_modify]
  refine congrFun (congrArg _ (funext fun c => ?_)) _
  by_cases h : i = j
  · simp [Choice.markedBy, h]
  · simp [Choice.markedBy, h, Ne.symm h]

/-- All choices at the positions are marked, whatever the order of the positions. -/
theorem getElem?_foldl_markAt (is : List Nat) (cs : List Choice) (j : Nat) :
    (is.foldl markAt cs)[j]? = cs[j]?.map (Choice.markedBy is j) := by
  induction is generalizing cs with
  | nil =>
    have hsame : Choice.markedBy [] j = id := funext fun c => by simp [Choice.markedBy]
    rw [List.foldl_nil, hsame, Option.map_id, id]
  | cons i is ih =>
    rw [List.foldl_cons, ih, getElem?_markAt, Option.map_map]
    congr 1
    funext c
    simp [Choice.markedBy, Bool.or_assoc]

attribute [ext] MultipleChoice

namespace MultipleChoice

/-- The names under which choices are given. -/
def choiceNames : List String := ["options", "choices", "answers"]

theorem choices_ofPayload (p : Payload) :
    (ofPayload p).choices =
      (p.list choiceNames).mapIdx fun i v => (Choice.ofJson v).markedBy (namedPositions p) i := rfl

theorem getElem?_choices (p : Payload) (i : Nat) :
    (ofPayload p).choices[i]? =
      (p.list choiceNames)[i]?.map fun v => (Choice.ofJson v).markedBy (namedPositions p) i := by
  rw [choices_ofPayload, List.getElem?_mapIdx]

/-- The choices are those that are given, marked at the positions one after the other. -/
theorem choices_eq_foldl (p : Payload) :
    (ofPayload p).choices =
      (namedPositions p).foldl markAt ((p.list choiceNames).map Choice.ofJson) := by
  apply List.ext_getElem?
  intro i
  rw [getElem?_foldl_markAt, getElem?_choices, List.getElem?_map, Option.map_map]
  rfl

theorem length_choices (p : Payload) : (ofPayload p).choices.length = (p.list choiceNames).length :=
  List.length_mapIdx

theorem map_text_choices (p : Payload) :
    (ofPayload p).choices.map (·.text) =
      (p.list choiceNames).map fun v => (Choice.ofJson v).text := by
  apply List.ext_getElem?
  intro i
  rw [List.getElem?_map, getElem?_choices, Option.map_map, List.getElem?_map]
  rfl

theorem one_lt_countP_iff {α : Type} {p : α → Bool} {as : List α} :
    1 < as.countP p ↔ ∃ a b, [a, b].Sublist as ∧ p a = true ∧ p b = true := by
  rw [List.countP_eq_length_filter]
  constructor
  · intro h
    obtain ⟨a, b, rest, hfilter⟩ : ∃ a b rest, as.filter p = a :: b :: rest := by
      match hfilter : as.filter p with
      | [] => simp [hfilter] at h
      | [_] => simp [hfilter] at h
      | a :: b :: rest => exact ⟨a, b, rest, rfl⟩
    have hsublist : [a, b].Sublist (as.filter p) := by
      rw [hfilter]
      exact ((List.nil_sublist rest).cons_cons b).cons_cons a
    exact ⟨a, b, hsublist.trans List.filter_sublist, List.of_mem_filter (hsublist.subset (by simp)),
      List.of_mem_filter (hsublist.subset (by simp))⟩
  · rintro ⟨a, b, hsublist, ha, hb⟩
    have hle := (hsublist.filter p).length_le
    rw [List.filter_cons_of_pos ha, List.filter_cons_of_pos hb] at hle
    exact hle

/-- Whether a choice as it is given has a mark of its own. -/
def MarksItself (v : Json) : Prop :=
  ∃ ms, v = .object ms ∧ Payload.Affirms ms ["correct", "isCorrect"]

theorem correct_ofJson_iff {v : Json} : (Choice.ofJson v).correct = true ↔ MarksItself v := by
  by_cases hobject : ∃ ms, v = .object ms
  · obtain ⟨ms, rfl⟩ := hobject
    rw [Choice.ofJson, Payload.flag_iff]
    constructor
    · intro h
      exact ⟨ms, rfl, h⟩
    · rintro ⟨ms', h, haffirms⟩
      rw [Json.object.inj h]
      exact haffirms
  · have hfalse : (Choice.ofJson v).correct = false := by
      cases v with
      | object ms => exact absurd ⟨ms, rfl⟩ hobject
      | _ => rfl
    rw [hfalse]
    constructor
    · rintro ⟨⟩
    · rintro ⟨ms, h, -⟩
      exact absurd ⟨ms, h⟩ hobject

/-- The names under which a question says that several choices may be made. -/
def severalNames : List String := ["allowMultiple", "multiple"]

/-- Whether a question grades its choices as a payload says, in which some values are the
choices. -/
structure Grades (p : Payload) (vs : List Json) (q : MultipleChoice) : Prop where
  /-- Each value is a choice, in the same order. -/
  length : q.choices.length = vs.length
  texts : q.choices.map (·.text) = vs.map fun v => (Choice.ofJson v).text
  /-- A choice is correct by its own mark or by its position, and for no other reason. -/
  correct : ∀ (i : Nat) (c : Choice) (v : Json), q.choices[i]? = some c → vs[i]? = some v →
    (c.correct = true ↔ MarksItself v ∨ p.NamesPosition positionNames i)
  /-- The choices are marked at the named positions one after the other. -/
  marked : ∃ is : List Nat, (∀ i, i ∈ is ↔ p.NamesPosition positionNames i) ∧
    q.choices = is.foldl markAt (vs.map Choice.ofJson)
  several : q.allowMultiple = true ↔ p.Affirms severalNames ∨
    ∃ c d, [c, d].Sublist q.choices ∧ c.correct = true ∧ d.correct = true
  /-- Of what stands among the positions, nothing counts but the whole numbers that are positions
  of choices. -/
  only : ∀ p' : Payload, (∀ name, name ∉ positionNames → findEntry name p' = findEntry name p) →
    (∀ i < vs.length, p'.NamesPosition positionNames i ↔ p.NamesPosition positionNames i) →
    ofPayload p' = q

theorem ofPayload_congr {p p' : Payload}
    (hothers : ∀ name, name ∉ positionNames → findEntry name p' = findEntry name p)
    (hpositions : ∀ i < (p.list choiceNames).length,
      p'.NamesPosition positionNames i ↔ p.NamesPosition positionNames i) :
    ofPayload p' = ofPayload p := by
  -- Under other names the same is found, and of the positions only those of choices are looked up.
  have hvalues {names : List String} (hnames : ∀ name ∈ names, name ∉ positionNames) :
      p'.values names = p.values names :=
    Payload.values_congr fun name hname => hothers name (hnames name hname)
  have hlist : p'.list choiceNames = p.list choiceNames := by
    rw [Payload.list, hvalues (by decide)]
    rfl
  have hchoices : (ofPayload p').choices = (ofPayload p).choices := by
    apply List.ext_getElem?
    intro i
    rw [getElem?_choices, getElem?_choices, hlist]
    by_cases hi : i < (p.list choiceNames).length
    · have hsame : (namedPositions p').contains i = (namedPositions p).contains i := by
        rw [Bool.eq_iff_iff, List.contains_iff_mem, List.contains_iff_mem,
          mem_namedPositions_iff, mem_namedPositions_iff, hpositions i hi]
      simp only [Choice.markedBy, hsame]
    · rw [List.getElem?_eq_none (Nat.le_of_not_lt hi)]
      rfl
  have hmore : (ofPayload p').allowMultiple = (ofPayload p).allowMultiple := by
    have hflag : p'.flag severalNames = p.flag severalNames := by
      rw [Payload.flag, hvalues (by decide)]
      rfl
    change (p'.flag severalNames || decide (1 < (ofPayload p').choices.countP (·.correct))) =
      (p.flag severalNames || decide (1 < (ofPayload p).choices.countP (·.correct)))
    rw [hflag, hchoices]
  have hquestion : (ofPayload p').question = (ofPayload p).question := by
    change p'.text _ = p.text _
    rw [Payload.text, Payload.text, Payload.text?, Payload.text?, hvalues (by decide)]
  have hexplanation : (ofPayload p').explanation = (ofPayload p).explanation := by
    change p'.text? _ = p.text? _
    rw [Payload.text?, Payload.text?, hvalues (by decide)]
  exact MultipleChoice.ext hquestion hchoices hexplanation hmore

theorem grades_ofPayload (p : Payload) : Grades p (p.list choiceNames) (ofPayload p) where
  length := length_choices p
  texts := map_text_choices p
  correct i c v hc hv := by
    rw [getElem?_choices, hv, Option.map_some, Option.some.injEq] at hc
    rw [← hc, Choice.markedBy, Bool.or_eq_true, correct_ofJson_iff, List.contains_iff_mem,
      mem_namedPositions_iff]
  marked := ⟨namedPositions p, fun _ => mem_namedPositions_iff, choices_eq_foldl p⟩
  several := by
    change (p.flag severalNames || decide (1 < (ofPayload p).choices.countP (·.correct))) = true ↔ _
    rw [Bool.or_eq_true, decide_eq_true_eq, Payload.flag_iff, one_lt_countP_iff]
  only _ hothers hpositions := ofPayload_congr hothers hpositions

end MultipleChoice

/-! ## Blocks -/

/-- The tags of multiple-choice questions as they are normalised. -/
def multipleChoiceTags : List String :=
  ["multiple-choice-question", "multiple-choice", "mcq"]

theorem ofPayload_of_mem_multipleChoiceTags {tag : String}
    (h : plainTag tag ∈ multipleChoiceTags) (p : Payload) :
    Content.ofPayload tag p = .multipleChoice (.ofPayload p) := by
  rw [multipleChoiceTags, List.mem_cons, List.mem_cons, List.mem_singleton] at h
  rcases h with h | h | h <;> simp only [Content.ofPayload, h]

/-- A block with the tag of a multiple-choice question is one, whatever its payload is. Its choices
are the items of the first array under the names of choices, and they are graded as the payload
says. -/
theorem multipleChoice_ofParts (id : String) (order : Int) {tag : String}
    (htag : plainTag tag ∈ multipleChoiceTags) (payload : Json) :
    ∃ q vs, (Block.ofParts id order tag payload).content = .multipleChoice q ∧
      (Payload.ofJson payload).FirstArray MultipleChoice.choiceNames vs ∧
      MultipleChoice.Grades (Payload.ofJson payload) vs q := by
  have hcontent : (Block.ofParts id order tag payload).content =
      .multipleChoice (.ofPayload (Payload.ofJson payload)) := by
    rw [Block.ofParts, ofPayload_of_mem_multipleChoiceTags htag]
  exact ⟨_, _, hcontent, Payload.firstArray_list _ _, MultipleChoice.grades_ofPayload _⟩

/-- A question with a mark that is a text, and with positions that are repeated, too great, negative
and broken. -/
def quizPayload : Json :=
  .object [("answers", .array []),
    ("choices", .array [.object [("correct", .string "true"), ("text", .string "3")],
      .string "4", .object [("isCorrect", .number (.integer 1)), ("label", .string "5")]]),
    ("correctAnswers", .array [.number (.integer 2), .number (.integer 2), .number (.integer 7),
      .number (.integer (-1)), .number (.decimal (.ofPercent 150))]),
    ("options", .string "none")]

theorem multipleChoice_ofParts_quiz :
    plainTag "multipleChoiceQuestion" ∈ multipleChoiceTags ∧
      ∃ q, (Block.ofParts "q" 0 "multipleChoiceQuestion" quizPayload).content =
          .multipleChoice q ∧
        q.choices = [⟨"3", true⟩, ⟨"4", false⟩, ⟨"5", true⟩] ∧ q.allowMultiple = true := by
  have htag : plainTag "multipleChoiceQuestion" ∈ multipleChoiceTags := by decide +kernel
  obtain ⟨q, vs, hcontent, -, hgrades⟩ := multipleChoice_ofParts "q" 0 htag quizPayload
  have hsame : MultipleChoice.ofPayload (Payload.ofJson quizPayload) = q :=
    hgrades.only _ (fun _ _ => rfl) fun _ _ => Iff.rfl
  have hchoices : q.choices = [⟨"3", true⟩, ⟨"4", false⟩, ⟨"5", true⟩] := by
    rw [← hsame]
    decide +kernel
  refine ⟨htag, q, hcontent, hchoices, hgrades.several.mpr (.inr ⟨⟨"3", true⟩, ⟨"5", true⟩, ?_⟩)⟩
  rw [hchoices]
  exact ⟨by decide, rfl, rfl⟩

end Courseware
