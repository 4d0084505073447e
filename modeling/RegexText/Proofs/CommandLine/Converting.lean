/-
  RegexText/Proofs/CommandLine/Converting.lean
  ============================================
  **Converting one pattern after the other.**

  The patterns before the first that cannot be converted are accepted, and their
  texts are written whatever comes behind them.  What is told about them holds no
  warning; there is one at most, about the pattern that is not accepted.

  A converted pattern is written in one of two forms, which are spelled out here
  once more: as its literal with a line for each named group, or as JSON.
-/
import RegexText.CommandLine.Program
import RegexText.Proofs.Conversion.Events

namespace RegexText.CommandLine

variable {σ : Type} {P : Platform σ}

/-! ### The texts of converted patterns -/

/-- A converted pattern in its plain form, with a line for each named group, and as a JSON object on
    a line. -/
def rendering (P : Platform σ) (json : Bool) (c : Converted) : String :=
  if json then
    P.compact (.object [("pattern", .string c.pattern),
      ("capture_map", .object (c.captures.toList.map fun (name, group) => (name, .number group)))])
      ++ "\n"
  else
    c.pattern ++ "\n" ++
      String.join (c.captures.toList.map fun (name, group) =>
        "  " ++ name ++ " = " ++ toString group ++ "\n")

theorem convertedText_eq (P : Platform σ) (json : Bool) (c : Converted) :
    P.convertedText json c = rendering P json c := by
  cases json with
  | true => rfl
  | false =>
    rw [Platform.convertedText, rendering, if_neg Bool.false_ne_true, if_neg Bool.false_ne_true,
      convertedTable, unlines, List.map_cons, String.join_cons, List.map_map]
    congr 3
    funext entry
    rcases entry with ⟨name, group⟩
    simp only [Function.comp_apply, String.append_assoc]
    rfl

/-! ### Accepted patterns -/

/-- The leading patterns that can be converted. -/
def accepted (patterns : List String) : List String :=
  patterns.takeWhile fun pattern => (convertPattern defaultGroupDepth pattern).Succeeds

/-- The warning about a pattern that cannot be converted. -/
def refusal (pattern : String) (error : PatternError) : List Event :=
  if error.isDialectGap then [.refused pattern error] else []

theorem convertAll_of_error {json : Bool} {pattern : String} {error : PatternError}
    (h : (convertPattern defaultGroupDepth pattern).outcome = .error error)
    (patterns : List String) :
    P.convertAll json (pattern :: patterns) =
      ((convertPattern defaultGroupDepth pattern).events ++ refusal pattern error, "",
        some (.pattern error)) := by
  rw [Platform.convertAll]
  simp only [h, refusal]

theorem convertAll_of_ok {json : Bool} {pattern : String} {c : Converted}
    (h : (convertPattern defaultGroupDepth pattern).outcome = .ok c) (patterns : List String) :
    P.convertAll json (pattern :: patterns) =
      ((convertPattern defaultGroupDepth pattern).events ++ (P.convertAll json patterns).1,
        rendering P json c ++ (P.convertAll json patterns).2.1,
        (P.convertAll json patterns).2.2) := by
  rw [Platform.convertAll]
  simp only [h, convertedText_eq]

/-- Patterns that can be converted are passed over: their texts come first, and nothing is warned
    about. -/
theorem convertAll_append (P : Platform σ) (json : Bool) {front : List String}
    (hfront : ∀ pattern ∈ front, (convertPattern defaultGroupDepth pattern).Succeeds)
    (later : List String) :
    ∃ (cs : List Converted) (notes : List Event),
      front.map (fun pattern => (convertPattern defaultGroupDepth pattern).outcome) =
          cs.map .ok ∧
        (∀ event ∈ notes, event.IsQuiet) ∧
        P.convertAll json (front ++ later) =
          (notes ++ (P.convertAll json later).1,
            String.join (cs.map (rendering P json)) ++ (P.convertAll json later).2.1,
            (P.convertAll json later).2.2) := by
  induction front with
  | nil => exact ⟨[], [], rfl, nofun, by simp⟩
  | cons pattern front ih =>
    rcases List.forall_mem_cons.1 hfront with ⟨⟨c, hc⟩, hrest⟩
    rcases ih hrest with ⟨cs, notes, hcs, hnotes, happend⟩
    refine ⟨c :: cs, (convertPattern defaultGroupDepth pattern).events ++ notes, ?_, ?_, ?_⟩
    · rw [List.map_cons, List.map_cons, hc, hcs]
    · intro event hmem
      rcases List.mem_append.1 hmem with hfirst | hlater
      · exact notesOnly_convertPattern defaultGroupDepth pattern event hfirst
      · exact hnotes event hlater
    · rw [List.cons_append, convertAll_of_ok hc, happend]
      simp [String.append_assoc]

theorem succeeds_of_mem_accepted {patterns : List String} {pattern : String}
    (h : pattern ∈ accepted patterns) : (convertPattern defaultGroupDepth pattern).Succeeds := by
  have hall := List.all_takeWhile (l := patterns)
    (p := fun pattern => (convertPattern defaultGroupDepth pattern).Succeeds)
  simpa using List.all_eq_true.1 hall pattern h

/-- Either all patterns can be converted, or there is a first one that cannot. -/
theorem accepted_cases (patterns : List String) :
    accepted patterns = patterns ∨
      ∃ pattern later error, patterns = accepted patterns ++ pattern :: later ∧
        (convertPattern defaultGroupDepth pattern).outcome = .error error := by
  induction patterns with
  | nil => exact .inl rfl
  | cons first patterns ih =>
    cases houtcome : (convertPattern defaultGroupDepth first).outcome with
    | error error =>
      have hfails : ¬ (convertPattern defaultGroupDepth first).Succeeds := by
        rintro ⟨c, hc⟩
        rw [houtcome] at hc
        cases hc
      right
      refine ⟨first, patterns, error, ?_, houtcome⟩
      rw [accepted, List.takeWhile_cons_of_neg (by simpa using hfails)]
      rfl
    | ok c =>
      have hsucceeds : (convertPattern defaultGroupDepth first).Succeeds := ⟨c, houtcome⟩
      have hfirst : accepted (first :: patterns) = first :: accepted patterns :=
        List.takeWhile_cons_of_pos (by simpa using hsucceeds)
      rw [hfirst]
      rcases ih with hall | ⟨pattern, later, error, hsplit, herror⟩
      · exact .inl (by rw [hall])
      · exact .inr ⟨pattern, later, error, by rw [List.cons_append, ← hsplit], herror⟩

/-- A pattern that cannot be converted stands where the accepted ones end. -/
theorem getElem?_length_accepted {patterns later : List String} {pattern : String}
    (h : patterns = accepted patterns ++ pattern :: later) :
    (accepted patterns).length ≠ patterns.length ∧
      patterns[(accepted patterns).length]? = some pattern := by
  constructor
  · have hlength := congrArg List.length h
    rw [List.length_append, List.length_cons] at hlength
    omega
  · calc patterns[(accepted patterns).length]?
        _ = (accepted patterns ++ pattern :: later)[(accepted patterns).length]? :=
          congrArg (·[(accepted patterns).length]?) h
        _ = some pattern := by simp

/-- What a request for conversion comes to: the texts of the accepted patterns, and a failure and
    perhaps a warning if there is one more. -/
theorem translate_cases (P : Platform σ) (r : TranslateRequest) :
    ∃ (cs : List Converted) (notes : List Event),
      (accepted r.patterns).map (fun pattern =>
          (convertPattern defaultGroupDepth pattern).outcome) = cs.map .ok ∧
        (∀ event ∈ notes, event.IsQuiet) ∧
        (accepted r.patterns = r.patterns ∧
            P.translate r = ⟨notes, some (String.join (cs.map (rendering P r.json))), none⟩ ∨
          ∃ pattern later error, r.patterns = accepted r.patterns ++ pattern :: later ∧
            (convertPattern defaultGroupDepth pattern).outcome = .error error ∧
            P.translate r = ⟨notes ++ refusal pattern error,
              some (String.join (cs.map (rendering P r.json))), some (.pattern error)⟩) := by
  have happend := convertAll_append P r.json
    fun pattern (hmem : pattern ∈ accepted r.patterns) => succeeds_of_mem_accepted hmem
  rcases accepted_cases r.patterns with hall | ⟨pattern, later, error, hsplit, herror⟩
  · rcases happend [] with ⟨cs, notes, hcs, hnotes, hconvert⟩
    refine ⟨cs, notes, hcs, hnotes, .inl ⟨hall, ?_⟩⟩
    rw [List.append_nil, hall] at hconvert
    rw [Platform.translate, hconvert]
    simp [Platform.convertAll]
  · rcases happend (pattern :: later) with ⟨cs, notes, hcs, hnotes, hconvert⟩
    refine ⟨cs, notes ++ (convertPattern defaultGroupDepth pattern).events, hcs, ?_,
      .inr ⟨pattern, later, error, hsplit, herror, ?_⟩⟩
    · intro event hmem
      rcases List.mem_append.1 hmem with hnote | hlast
      · exact hnotes event hnote
      · exact notesOnly_convertPattern defaultGroupDepth pattern event hlast
    · rw [← hsplit, convertAll_of_error herror] at hconvert
      rw [Platform.translate, hconvert]
      simp

end RegexText.CommandLine
