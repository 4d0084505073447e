/-
  RegexText/Proofs/Lexeme/Opener.lean
  ===================================
  **How the start of a group is spelled.**

  The start of a group is a parenthesis with marks behind it.  Whatever kind of
  group it starts, its last character is one of a few, and none of these can be
  repeated or repeats anything.
-/
import RegexText.Proofs.TokenStream.Captures

namespace RegexText.Lexeme

variable {cs text body : List Char} {opener : Opener}

/-- The characters with which the start of a group can end. -/
def isOpenerEnd (c : Char) : Bool := ['(', ':', '>', '\'', '=', '!'].contains c

/-- Is this how the start of a group can be spelled? -/
structure OpenerText (text : List Char) : Prop where
  marks : ∃ inner, text = '(' :: inner ∧ ∀ c ∈ inner, isMarkChar c = true
  last : ∃ c ∈ text.getLast?, isOpenerEnd c = true

theorem isOpenerEnd_of_special (h : Special (.opener opener text)) :
    ∃ c ∈ text.getLast?, isOpenerEnd c = true := by
  cases h with
  | letter => exact ⟨'>', List.getLast?_concat, rfl⟩
  | angle => exact ⟨'>', List.getLast?_concat, rfl⟩
  | quote => exact ⟨'\'', List.getLast?_concat, rfl⟩
  | nonCapturing => exact ⟨':', List.getLast?_concat, rfl⟩
  | atomic => exact ⟨'>', rfl, rfl⟩
  | ahead negated => cases negated <;> exact ⟨_, rfl, rfl⟩
  | behind negated => cases negated <;> exact ⟨_, rfl, rfl⟩

theorem isOpenerEnd_readGroup (h : (readGroup cs).1 = .opener opener text) :
    ∃ c ∈ text.getLast?, isOpenerEnd c = true := by
  unfold readGroup at h
  split at h
  · rename_i inner
    cases hread : readSpecial inner with
    | none =>
      rw [hread] at h
      cases h
    | some r =>
      obtain ⟨l, rest⟩ := r
      rw [hread] at h
      change l = .opener opener text at h
      exact isOpenerEnd_of_special (h ▸ special_of_readSpecial hread)
  · cases h
    exact ⟨'(', rfl, rfl⟩

/-- **The starts of groups in a body are spelled as starts of groups.** -/
theorem openerText_of_mem_ofBody (h : .opener opener text ∈ ofBody body) : OpenerText text := by
  fun_induction ofBody body with
  | case1 => cases h
  | case2 c cs ih =>
    rcases List.mem_cons.1 h with hfirst | hlater
    · obtain ⟨_, hgroup⟩ := readGroup_of_next hfirst.symm
      have hclosed : (readGroup cs).1.isClosed = true := by rw [hgroup]; rfl
      obtain ⟨inner, htext, hinner⟩ := isMarkChar_readGroup hclosed
      rw [hgroup] at htext
      exact ⟨⟨inner, htext, hinner⟩, isOpenerEnd_readGroup hgroup⟩
    · exact ih hlater

end RegexText.Lexeme
