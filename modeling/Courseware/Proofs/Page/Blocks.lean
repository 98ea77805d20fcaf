import Courseware.Proofs.Page.Containers

/-!
# The blocks of a page

The parts of pages bear no containers, apart from blocks, of which each bears its own.
So the containers of a page are the blocks in its body.
-/

namespace Courseware.Page

open Markup Markup.Html
open Text (Dialect)
open Bears

/-! ## Contents -/

theorem bare_leaf {name : String} (hname : IsOther name) {attributes : List Attribute}
    (h : Unbracketed attributes) (s : String) : Bare (element name attributes [text s]) :=
  element hname h (text s)

theorem bare_elementLine {name : String} (hname : IsOther name) {attributes : List Attribute}
    (h : Unbracketed attributes) {content : List Token} {ids : List (Option String)}
    (hcontent : Bears content ids) : Bears (elementLine name attributes content) ids :=
  (element hname h hcontent).line

/-- The class of an element. -/
theorem unbracketed_class {written : String} (h : '<' ∉ written.toList) :
    Unbracketed [fixed "class" written] :=
  .fixed (by decide) h .nil

theorem bare_placeholder (s : String) : Bare (placeholder s) :=
  bare_leaf (by decide) (unbracketed_class (by decide)) s

theorem bare_figcaption (caption : Option String) : Bare (figcaption caption) :=
  whenSome (fun s => bare_elementLine (by decide) .nil (text s)) caption

theorem bare_image (src alt : String) (caption : Option String) :
    Bare (image src alt caption) := by
  have himg : Bare [.start "img" [attr "src" src, attr "alt" alt, fixed "loading" "lazy"]] :=
    start (by decide) <| .attr (by decide) _ <| .attr (by decide) _ <|
      .fixed (by decide) (by decide) .nil
  rw [image]
  split
  · exact bare_placeholder _
  · exact element (by decide) .nil (himg.line.append (bare_figcaption caption)).newline_cons

theorem bare_video (src : String) (title caption poster : Option String) :
    Bare (video src title caption poster) := by
  have hextras : Unbracketed (Markup.whenSome poster (fun s => [attr "poster" s]) ++
      Markup.whenSome title fun s => [attr "title" s]) := by
    cases poster with
    | none =>
      cases title with
      | none => exact .nil
      | some t => exact .attr (by decide) t .nil
    | some p =>
      cases title with
      | none => exact .attr (by decide) p .nil
      | some t => exact .attr (by decide) p (.attr (by decide) t .nil)
  have hlink : Bare (Markup.element "a" [attr "href" src] [Html.text "Download video"]) :=
    bare_leaf (by decide) (.attr (by decide) src .nil) _
  rw [video]
  split
  · exact bare_placeholder _
  · exact element (by decide) .nil <| newline_cons <|
      (bare_elementLine (by decide)
        (.flag (by decide) <| .fixed (by decide) (by decide) <|
          .attr (by decide) src hextras) hlink).append (bare_figcaption caption)

theorem bare_quote (s : String) (citation : Option String) : Bare (quote s citation) :=
  element (by decide) .nil <| newline_cons <|
    (bare_elementLine (by decide) .nil (lines s)).append
      (whenSome (fun c => bare_elementLine (by decide) .nil (text c)) citation)

theorem bare_list (ordered : Bool) (items : List String) : Bare (list ordered items) := by
  have hname : IsOther (if ordered then "ol" else "ul") := by cases ordered <;> decide
  have hitem : ∀ item, Bare (indented 1 (Markup.element "li" [] [Html.text item])) :=
    fun item => (bare_leaf (by decide) .nil item).indented 1
  exact element hname .nil (flatMap hitem items).newline_cons

theorem bare_accordion (sections : List Section) : Bare (accordion sections) := by
  have hsection : ∀ s : Section, Bare
      (elementLine "details" [fixed "class" "accordion-section"] <|
        .newline :: elementLine "summary" [] [Html.text s.title] ++
          elementLine "div" [fixed "class" "accordion-body"] (multiline s.content)) :=
    fun s => bare_elementLine (by decide) (unbracketed_class (by decide)) <| newline_cons <|
      (bare_elementLine (by decide) .nil (text s.title)).append
        (div (by decide) (by decide) .nil (lines s.content)).line
  exact div (by decide) (by decide) .nil (flatMap hsection sections).newline_cons

theorem bare_tabs (id : String) (panels : List Section) : Bare (tabs id panels) := by
  have hlink : ∀ (i : Nat) (panel : Section), Bare (indented 1 (Markup.element "a"
      [fixed "class" "tab", attr "href" ("#" ++ tabName id i)] [Html.text panel.title])) :=
    fun i panel => (bare_leaf (by decide)
      (.fixed (by decide) (by decide) (.attr (by decide) _ .nil)) panel.title).indented 1
  have hpanel : ∀ (i : Nat) (panel : Section), Bare
      (elementLine "section" [fixed "class" "tab-panel", attr "id" (tabName id i)] <|
        .newline :: elementLine "h4" [fixed "class" "tab-title"] [Html.text panel.title] ++
          elementLine "div" [] (multiline panel.content)) :=
    fun i panel => bare_elementLine (by decide)
      (.fixed (by decide) (by decide) (.attr (by decide) _ .nil)) <| newline_cons <|
      (bare_elementLine (by decide) (unbracketed_class (by decide)) (text panel.title)).append
        (plainDiv (lines panel.content)).line
  exact div (by decide) (by decide) .nil <| newline_cons <|
    (bare_elementLine (by decide) (unbracketed_class (by decide))
      (mapIdx hlink panels).newline_cons).append (mapIdx hpanel panels)

theorem bare_feedback (explanation : Option String) : Bare (feedback explanation) := by
  have hhidden : Unbracketed [.flag "hidden"] := .flag (by decide) .nil
  have hexplanation : ∀ s, Bare
      (elementLine "div" [fixed "class" "explanation", .flag "hidden"] (multiline s)) :=
    fun s => (div (by decide) (by decide) hhidden (lines s)).line
  exact (div (by decide) (by decide) (.fixed (by decide) (by decide) hhidden) nil).line.append
    (whenSome hexplanation explanation)

/-- What a handler is written with has no brackets. -/
theorem not_mem_typedCall {hook : String} (hhook : '<' ∉ hook.toList) (id : String) :
    '<' ∉ (hook ++ "(" ++ Dialect.html.escape (Json.quote id) ++
      ", this.parentNode.querySelector('.blank-input').value, null, this)").toList := by
  simp [hhook, lt_not_mem_escape]

theorem bare_multipleChoice (hook id : String) (q : MultipleChoice) :
    Bare (multipleChoice hook id q) := by
  have hindex : ∀ i : Nat, '<' ∉ (toString i).toList := by
    intro i hmem
    have hdigit : '<'.isDigit = true :=
      Nat.isDigit_of_mem_toDigits (b := 10) (n := i) (by decide) (by decide) (by simpa using hmem)
    exact absurd hdigit (by decide)
  have hchoice : ∀ (i : Nat) (choice : Choice), Bare (indented 1 (Markup.element "li" []
      (Markup.element "button"
        [fixed "type" "button", fixed "class" "choice",
          fixed "data-choice-index" (toString i),
          attr "onclick" (hook ++ "(" ++ Json.quote id ++ ", " ++ toString i ++ ", " ++
            scriptBool choice.correct ++ ", this)")]
        [Html.text choice.text]))) :=
    fun i choice => (element (by decide) .nil (bare_leaf (by decide)
      (.fixed (by decide) (by decide) <| .fixed (by decide) (by decide) <|
        .fixed (by decide) (hindex i) <| .attr (by decide) _ .nil) choice.text)).indented 1
  exact div (by decide) (by decide) (.attr (by decide) id <| .truth (by decide) _ .nil) <|
    newline_cons <|
    ((bare_elementLine (by decide) (unbracketed_class (by decide)) (text q.question)).append
      (bare_elementLine (by decide) (unbracketed_class (by decide))
        (mapIdx hchoice q.choices).newline_cons)).append (bare_feedback q.explanation)

theorem bare_fillInBlank {hook : String} (hhook : '<' ∉ hook.toList) (id : String)
    (q : FillInBlank) : Bare (fillInBlank hook id q) := by
  have hinput : Bare [.start "input"
      [fixed "type" "text", fixed "class" "blank-input", fixed "autocomplete" "off"]] :=
    start (by decide) <| .fixed (by decide) (by decide) <| .fixed (by decide) (by decide) <|
      .fixed (by decide) (by decide) .nil
  exact div (by decide) (by decide)
    (.attr (by decide) id <| .attr (by decide) _ <| .truth (by decide) _ .nil) <|
    newline_cons <|
    ((bare_elementLine (by decide) .nil
      ((bare_leaf (by decide) (unbracketed_class (by decide)) q.prompt).append
        hinput.newline_cons)).append
      (bare_elementLine (by decide)
        (.fixed (by decide) (by decide) <| .fixed (by decide) (by decide) <|
          .fixed (by decide) (not_mem_typedCall hhook id) .nil)
        (text "Check answer"))).append (bare_feedback q.explanation)

theorem bare_content (format : Format) (id : String) (c : Content) :
    Bare (content format id c) := by
  cases c with
  | paragraph s => exact element (by decide) .nil (lines s)
  | heading level s =>
    have hlevels : ∀ l ≤ 6, IsOther ("h" ++ toString l) := by decide
    exact bare_leaf (hlevels _ (by omega)) .nil s
  | image src alt caption => exact bare_image src alt caption
  | video src title caption poster => exact bare_video src title caption poster
  | quote s citation => exact bare_quote s citation
  | list ordered items => exact bare_list ordered items
  | divider => exact start (by decide) .nil
  | accordion sections => exact bare_accordion sections
  | tabs panels => exact bare_tabs id panels
  | multipleChoice q => exact bare_multipleChoice _ id q
  | fillInBlank q =>
    refine bare_fillInBlank ?_ id q
    cases format <;> rw [Format.answerHook] <;> decide
  | unknown tag payload => exact bare_placeholder _

/-! ## Blocks -/

/-- What the classes of containers end with. -/
def contentClasses : List String :=
  ["paragraph", "heading", "image", "video", "quote", "list", "divider", "accordion", "tabs",
    "multiple-choice-question", "fill-in-blank-question", "unknown"]

theorem contentClass_mem (c : Content) : contentClass c ∈ contentClasses := by
  cases c <;> simp [contentClass, Content.tag, contentClasses]

/-- What a container is written with up to its identifier. -/
def containerHead (kind : String) : List Char :=
  containerStart ++ kind.toList ++ "\" data-block-id=\"".toList

theorem containerHead_spec : ∀ kind ∈ contentClasses,
    Dialect.html.escape ("block block-" ++ kind) = "block block-" ++ kind ∧
    Script.cut? " data-block-id=\"".toList (containerHead kind) =
      some (containerStart ++ kind.toList ++ ['"'], []) ∧
    '<' ∉ (containerHead kind).tail ∧ '>' ∉ containerHead kind := by
  decide

/-- What follows an identifier in the tag of a container. -/
def containerTail (tag : String) : List Char :=
  "\" data-block-type=\"".toList ++ (Dialect.html.escape tag).toList ++ ['"']

theorem not_mem_containerTail {q : Char} (hq : q = '<' ∨ q = '>') (tag : String) :
    q ∉ containerTail tag := by
  have hescape : q ∉ (Dialect.html.escape tag).toList :=
    Dialect.not_mem_escape (by rcases hq with rfl | rfl <;> simp) tag
  have hfixed : q ∉ "\" data-block-type=\"".toList ∧ q ∉ ['"'] := by
    rcases hq with rfl | rfl <;> decide
  exact List.not_mem_append (List.not_mem_append hfixed.1 hescape) hfixed.2

/-- What stands before a character that it does not hold is all that comes before it. -/
theorem takeWhile_before {q : Char} {cs : List Char} (h : q ∉ cs) (rest : List Char) :
    (cs ++ q :: rest).takeWhile (· != q) = cs := by
  have hall : ∀ c ∈ cs, (c != q) = true := by
    intro c hc
    exact bne_iff_ne.mpr fun heq => h (heq ▸ hc)
  rw [List.takeWhile_append_of_pos hall]
  simp

theorem containerId?_container {kind : String} (hkind : kind ∈ contentClasses)
    (id tag : String) (rest : List Char) :
    containerId? (containerHead kind ++ ((Dialect.html.escape id).toList ++
      (containerTail tag ++ '>' :: rest))) = some id := by
  obtain ⟨-, hcut, -, hgreater⟩ := containerHead_spec kind hkind
  have hnone : '>' ∉ containerHead kind ++ ((Dialect.html.escape id).toList ++
      containerTail tag) :=
    List.not_mem_append hgreater <| List.not_mem_append (Dialect.not_mem_escape (by simp) id)
      (not_mem_containerTail (Or.inr rfl) tag)
  have htag := takeWhile_before hnone rest
  simp only [List.append_assoc] at htag
  have hvalue : ((Dialect.html.escape id).toList ++ containerTail tag).takeWhile (· != '"') =
      (Dialect.html.escape id).toList :=
    takeWhile_before (Dialect.not_mem_escape (by simp) id) _
  rw [containerId?, htag, Script.cut?_append hcut, List.nil_append, Option.map_some, hvalue,
    Dialect.toList_escape, Dialect.unescapeList_escapeList, String.ofList_toList]

theorem bears_container {kind : String} (hkind : kind ∈ contentClasses) (id tag : String) :
    Bears [.start "div" [attr "class" ("block block-" ++ kind), attr "data-block-id" id,
      attr "data-block-type" tag]] [some id] := by
  obtain ⟨hescape, -, hless, -⟩ := containerHead_spec kind hkind
  intro rest
  have hrender : (render [.start "div" [attr "class" ("block block-" ++ kind),
      attr "data-block-id" id, attr "data-block-type" tag]]).toList ++ rest =
      containerHead kind ++ ((Dialect.html.escape id).toList ++
        (containerTail tag ++ '>' :: rest)) := by
    have hkindHead : containerHead kind = '<' :: ("div".toList ++ (" ".toList ++
        ("class".toList ++ ("=\"".toList ++ ("block block-".toList ++ (kind.toList ++
          ("\"".toList ++ (" ".toList ++ ("data-block-id".toList ++ "=\"".toList))))))))) := by
      rfl
    have htail : containerTail tag = "\"".toList ++ (" ".toList ++ ("data-block-type".toList ++
        ("=\"".toList ++ ((Dialect.html.escape tag).toList ++ ['"'])))) := by
      rfl
    simp [render, Token.render, attr, Attribute.ofText, Attribute.literal, Attribute.render,
      hescape, hkindHead, htail]
  have hfirst : containerStart.isPrefixOf (containerHead kind ++
      ((Dialect.html.escape id).toList ++ (containerTail tag ++ '>' :: rest))) = true := by
    rw [List.isPrefixOf_iff_prefix, containerHead]
    simp only [List.append_assoc]
    exact List.prefix_append _ _
  have hid := containerId?_container hkind id tag rest
  have hbehind : containerIds ((containerHead kind).tail ++ ((Dialect.html.escape id).toList ++
      (containerTail tag ++ '>' :: rest))) = containerIds rest := by
    rw [containerIds_append_of_not_mem hless,
      containerIds_append_of_not_mem (Dialect.not_mem_escape (by simp) id),
      containerIds_append_of_not_mem (not_mem_containerTail (Or.inl rfl) tag)]
    exact containerIds_append_of_not_mem (by decide : '<' ∉ ['>']) rest
  have hhead : containerHead kind = '<' :: (containerHead kind).tail := rfl
  rw [hrender]
  rw [hhead] at hfirst hid ⊢
  rw [List.cons_append] at hfirst hid ⊢
  rw [containerIds, if_pos hfirst, hid, hbehind]
  rfl

/-- A block bears its container and no other. -/
theorem bears_block (format : Format) (b : Block) : Bears (block format b) [some b.id] := by
  have hstop : Bare [.stop "div"] := stop (by decide)
  have hall := (bears_container (contentClass_mem b.content) b.id b.tag).append
    (((bare_content format b.id b.content).newline_cons.append newline).append hstop)
  simpa [block, Markup.element] using hall

theorem bears_blocks (format : Format) (bs : List Block) :
    Bears (blocks format bs) (bs.map fun b => some b.id) := by
  induction bs with
  | nil => exact nil
  | cons b bs ih =>
    cases bs with
    | nil => exact bears_block format b
    | cons c cs => exact (bears_block format b).append ih.newline_cons

end Courseware.Page
