import OrderFlow.Substrings

/-!
# The log formatter

`Logger::format` puts its arguments where `{}` stands in a text. The calls also write
`{:spec}`, which it does not know: such a placeholder is printed as it is, and its argument goes
to the next one that is plain.

A text is the list of its characters, and the arguments are what `operator<<` prints of them.
-/
namespace SessionLogger

open Substrings

abbrev Text := List Char

def placeholder : Text := ['{', '}']

/-- `oss` is what has been written so far. -/
def formatImpl : Text → Text → List Text → Text
  | oss, fmt, [] => oss ++ fmt
  | oss, fmt, val :: rest =>
    match find placeholder fmt with
    | none => oss ++ fmt
    | some pos => formatImpl (oss ++ fmt.take pos ++ val) (fmt.drop (pos + 2)) rest

def format (fmtStr : Text) (args : List Text) : Text := formatImpl [] fmtStr args

def BraceFree (text : Text) : Prop := '{' ∉ text ∧ '}' ∉ text

instance (text : Text) : Decidable (BraceFree text) := inferInstanceAs (Decidable (_ ∧ _))

abbrev PlainText := {text : Text // BraceFree text}

/-- `{}` and `{:spec}`. -/
inductive Hole where
  | bare
  | withSpec (spec : PlainText)
  deriving DecidableEq

def Hole.text : Hole → Text
  | .bare => placeholder
  | .withSpec spec => '{' :: ':' :: (spec.val ++ ['}'])

/-- A text with placeholders, each with the text behind it. -/
structure Template where
  lead : PlainText
  holes : List (Hole × PlainText)

def holesText (holes : List (Hole × PlainText)) : Text :=
  holes.flatMap fun h => h.1.text ++ h.2.val

def Template.text (t : Template) : Text := t.lead.val ++ holesText t.holes

def AllBare (holes : List (Hole × PlainText)) : Prop := ∀ h ∈ holes, h.1 = .bare

/-- How an argument is printed under a specification: it shows in the text somehow. -/
structure Rendering where
  render : PlainText → Text → Text
  shows : ∀ spec, ∃ a b, render spec a ≠ render spec b

/-- A specification that changes nothing. -/
def Rendering.asPrinted : Rendering where
  render := fun _ arg => arg
  shows := fun _ => ⟨['0'], ['1'], by decide⟩

def Rendering.hole (r : Rendering) : Hole → Text → Text
  | .bare, arg => arg
  | .withSpec spec, arg => r.render spec arg

/-- Each placeholder with its own argument in its place. -/
def Rendering.filled (r : Rendering) (holes : List (Hole × PlainText)) (args : List Text) :
    List Text :=
  List.zipWith (fun h arg => r.hole h.1 arg ++ h.2.val) holes args

def Template.fill (t : Template) (r : Rendering) (args : List Text) : Text :=
  t.lead.val ++ (r.filled t.holes args).flatten

/-- The placeholders that are plain take the arguments in turn. -/
def written : List (Hole × PlainText) → List Text → Text
  | [], _ => []
  | (.bare, after) :: holes, [] => placeholder ++ after.val ++ written holes []
  | (.bare, after) :: holes, arg :: args => arg ++ after.val ++ written holes args
  | (.withSpec spec, after) :: holes, args =>
    (Hole.withSpec spec).text ++ after.val ++ written holes args

theorem written_nil (holes : List (Hole × PlainText)) : written holes [] = holesText holes := by
  induction holes with
  | nil => rfl
  | cons h holes ih =>
    obtain ⟨hole, after⟩ := h
    cases hole <;> simp [written, holesText, Hole.text, ih]

theorem skips_plain (text : PlainText) : Skips placeholder text.val := skips_of_not_mem text.property.1

/-- A placeholder with a specification is passed over. -/
theorem skips_withSpec (spec : PlainText) : Skips placeholder (Hole.withSpec spec).text := by
  have hbrace : '{' ∉ ':' :: (spec.val ++ ['}']) := by
    have hspec := spec.property.1
    simp [hspec]
  refine skips_cons (fun rest hprefix => ?_) (skips_of_not_mem hbrace)
  have hsecond := (List.cons_prefix_cons.mp hprefix).2
  exact absurd (List.cons_prefix_cons.mp hsecond).1 (by decide)

theorem formatImpl_holes (holes : List (Hole × PlainText)) {front : Text}
    (hfront : Skips placeholder front) (oss : Text) (args : List Text) :
    formatImpl oss (front ++ holesText holes) args = oss ++ (front ++ written holes args) := by
  induction holes generalizing front oss args with
  | nil =>
    have hnone := find_eq_none hfront (by simp [placeholder])
    cases args with
    | nil => simp [formatImpl, holesText, written]
    | cons arg args => simp [formatImpl, holesText, written, hnone]
  | cons h holes ih =>
    obtain ⟨hole, after⟩ := h
    cases hole with
    | bare =>
      cases args with
      | nil => rw [formatImpl, written_nil]
      | cons arg args =>
        have htext : front ++ holesText ((Hole.bare, after) :: holes) =
            front ++ (placeholder ++ (after.val ++ holesText holes)) := by
          simp [holesText, Hole.text]
        have hdrop : (front ++ (placeholder ++ (after.val ++ holesText holes))).drop
            (front.length + 2) = after.val ++ holesText holes := by
          simp [placeholder]
        rw [htext, formatImpl, find_behind hfront]
        dsimp only
        rw [List.take_left, hdrop, ih (skips_plain after)]
        simp [written]
    | withSpec spec =>
      have htext : front ++ holesText ((Hole.withSpec spec, after) :: holes) =
          front ++ ((Hole.withSpec spec).text ++ after.val) ++ holesText holes := by
        simp [holesText]
      rw [htext, ih (skips_append hfront (skips_append (skips_withSpec spec) (skips_plain after)))]
      simp [written]

/-- What the formatter makes of a template. -/
theorem format_template (t : Template) (args : List Text) :
    format t.text args = t.lead.val ++ written t.holes args := by
  rw [format, Template.text, formatImpl_holes t.holes (skips_plain t.lead), List.nil_append]

theorem written_allBare (r : Rendering) {holes : List (Hole × PlainText)} (hbare : AllBare holes)
    {args : List Text} (hlength : args.length = holes.length) :
    written holes args = (r.filled holes args).flatten := by
  induction holes generalizing args with
  | nil => simp [written, Rendering.filled]
  | cons h holes ih =>
    obtain ⟨hole, after⟩ := h
    obtain rfl : hole = .bare := hbare (hole, after) (by simp)
    cases args with
    | nil => cases hlength
    | cons arg args =>
      have hrest : AllBare holes := fun h hmem => hbare h (List.mem_cons_of_mem _ hmem)
      rw [written, ih hrest (Nat.succ.inj hlength)]
      simp [Rendering.filled, Rendering.hole]

/-- Arguments that find no plain placeholder are not printed. -/
theorem written_append (holes : List (Hole × PlainText)) {args : List Text}
    (hcount : (holes.countP fun h => decide (h.1 = .bare)) ≤ args.length) (more : List Text) :
    written holes (args ++ more) = written holes args := by
  induction holes generalizing args with
  | nil => rfl
  | cons h holes ih =>
    obtain ⟨hole, after⟩ := h
    cases hole with
    | bare =>
      cases args with
      | nil => simp at hcount
      | cons arg args =>
        have hrest : (holes.countP fun h => decide (h.1 = .bare)) ≤ args.length := by
          simpa using hcount
        rw [List.cons_append, written, written, ih hrest]
    | withSpec spec =>
      have hrest : (holes.countP fun h => decide (h.1 = .bare)) ≤ args.length := by
        simpa using hcount
      rw [written, written, ih hrest]

theorem Rendering.hole_shows (r : Rendering) (hole : Hole) : ∃ a b, r.hole hole a ≠ r.hole hole b := by
  cases hole with
  | bare => exact ⟨[], ['0'], by simp [Rendering.hole]⟩
  | withSpec spec => exact r.shows spec

theorem filled_snoc (r : Rendering) {holes : List (Hole × PlainText)} {args : List Text}
    (hlength : args.length = holes.length) (h : Hole × PlainText) (arg : Text) :
    (r.filled (holes ++ [h]) (args ++ [arg])).flatten =
      (r.filled holes args).flatten ++ (r.hole h.1 arg ++ h.2.val) := by
  rw [Rendering.filled, List.zipWith_append hlength.symm]
  simp [Rendering.filled]

/-- With a specification somewhere, the last argument is never printed. -/
theorem allBare_of_written (r : Rendering) (holes : List (Hole × PlainText))
    (h : ∀ args, args.length = holes.length → written holes args = (r.filled holes args).flatten) :
    AllBare holes := by
  by_contra hspec
  rcases List.eq_nil_or_concat holes with rfl | ⟨init, last, rfl⟩
  · exact hspec fun h hmem => by cases hmem
  rw [List.concat_eq_append] at h hspec
  have hlength : (List.replicate init.length ([] : Text)).length = init.length := by simp
  have hcount : ((init ++ [last]).countP fun h => decide (h.1 = .bare)) ≤
      (List.replicate init.length ([] : Text)).length := by
    have hle := List.countP_le_length (p := fun h => decide (h.1 = .bare)) (l := init ++ [last])
    have hne : ((init ++ [last]).countP fun h => decide (h.1 = .bare)) ≠ (init ++ [last]).length := by
      intro hall
      apply hspec
      intro h hmem
      exact of_decide_eq_true (List.countP_eq_length.mp hall h hmem)
    rw [List.length_append, List.length_singleton] at hle hne
    omega
  obtain ⟨a, b, hab⟩ := r.hole_shows last.1
  have hprinted : ∀ arg, written (init ++ [last]) (List.replicate init.length []) =
      (r.filled init (List.replicate init.length [])).flatten ++ (r.hole last.1 arg ++ last.2.val) := by
    intro arg
    rw [← written_append _ hcount [arg], h _ (by simp), filled_snoc r hlength]
  have hsame := (hprinted a).symm.trans (hprinted b)
  exact hab (List.append_cancel_right (List.append_cancel_left hsame))

theorem brace_mem_written {holes : List (Hole × PlainText)} (h : ¬ AllBare holes) (args : List Text) :
    '{' ∈ written holes args := by
  induction holes generalizing args with
  | nil => exact absurd (fun h hmem => by cases hmem) h
  | cons first holes ih =>
    obtain ⟨hole, after⟩ := first
    cases hole with
    | withSpec spec => simp [written, Hole.text]
    | bare =>
      have hrest : ¬ AllBare holes := by
        intro hall
        apply h
        intro h hmem
        rcases List.mem_cons.mp hmem with rfl | hmem
        · rfl
        · exact hall h hmem
      cases args with
      | nil => simp [written, placeholder]
      | cons arg args => simp [written, ih hrest args]

/-- The arguments are printed in their places exactly if no placeholder has a specification:
of all arguments, and of any whose text has no braces in the end. -/
theorem format_fills_iff (r : Rendering) (t : Template) :
    ((∀ args, args.length = t.holes.length → format t.text args = t.fill r args) ↔
      AllBare t.holes) ∧
    ∀ args, args.length = t.holes.length → BraceFree (t.fill r args) →
      (format t.text args = t.fill r args ↔ AllBare t.holes) := by
  have hformat : ∀ args, format t.text args = t.fill r args ↔
      written t.holes args = (r.filled t.holes args).flatten := by
    intro args
    rw [format_template, Template.fill, List.append_cancel_left_eq]
  simp only [hformat]
  refine ⟨⟨allBare_of_written r t.holes, fun hbare args => written_allBare r hbare⟩, ?_⟩
  intro args hlength hfree
  refine ⟨fun heq => ?_, fun hbare => written_allBare r hbare hlength⟩
  by_contra hspec
  apply hfree.1
  rw [Template.fill, ← heq]
  exact List.mem_append_right _ (brace_mem_written hspec args)

/-- A plain placeholder behind one with a specification gets the argument of that one. -/
theorem written_ne_filled (r : Rendering) (spec behind after : PlainText) :
    written [(.withSpec spec, behind), (.bare, after)] [['7'], ['1']] ≠
      (r.filled [(.withSpec spec, behind), (.bare, after)] [['7'], ['1']]).flatten := by
  intro h
  have hwritten : written [(.withSpec spec, behind), (.bare, after)] [['7'], ['1']] =
      ((Hole.withSpec spec).text ++ behind.val) ++ ('7' :: after.val) := by simp [written]
  have hfilled : (r.filled [(.withSpec spec, behind), (.bare, after)] [['7'], ['1']]).flatten =
      (r.render spec ['7'] ++ behind.val) ++ ('1' :: after.val) := by
    simp [Rendering.filled, Rendering.hole]
  rw [hwritten, hfilled] at h
  have hends := (List.append_inj' h (by simp)).2
  exact absurd (List.cons.inj hends).1 (by decide)

/-- The warning of `TickRouter::route` about a symbol that is not registered. -/
def unknownSymbol : Template where
  lead := ⟨"Unknown symbol_id=".toList, by decide⟩
  holes :=
    [(.withSpec ⟨"#010x".toList, by decide⟩, ⟨" (".toList, by decide⟩),
      (.bare, ⟨"th unknown tick). Check adapter is registering symbols before ticks arrive.".toList,
        by decide⟩)]

theorem format_fills_unknownSymbol :
    ((∀ args, args.length = unknownSymbol.holes.length →
        format unknownSymbol.text args = unknownSymbol.fill .asPrinted args) ↔
      AllBare unknownSymbol.holes) ∧
    ∀ args, args.length = unknownSymbol.holes.length →
      BraceFree (unknownSymbol.fill .asPrinted args) →
        (format unknownSymbol.text args = unknownSymbol.fill .asPrinted args ↔
          AllBare unknownSymbol.holes) :=
  format_fills_iff .asPrinted unknownSymbol

/-- The symbol is printed where the count should be, however a symbol is printed. -/
theorem not_fill_unknownSymbol :
    ¬ ∃ r : Rendering, format unknownSymbol.text [['7'], ['1']] =
      unknownSymbol.fill r [['7'], ['1']] := by
  rintro ⟨r, h⟩
  rw [format_template, Template.fill, List.append_cancel_left_eq] at h
  exact written_ne_filled r _ _ _ h

end SessionLogger
