/-!
# Quoted text

A text between double quotes, in the form a string literal takes: a quote and a
backslash are escaped, a line feed is written `\n`, and a carriage return is left
out.
-/

namespace Ambient.Text

/-- What stands for one character between the quotes. -/
def escapeChar (c : Char) : List Char :=
  if c = '"' then ['\\', '"']
  else if c = '\\' then ['\\', '\\']
  else if c = '\n' then ['\\', 'n']
  else if c = '\r' then []
  else [c]

/-- A character is escaped, left out, or stands for itself. -/
theorem escapeChar_cases (c : Char) :
    (∃ d ∈ ['"', '\\', 'n'], c = (if d = 'n' then '\n' else d) ∧ escapeChar c = ['\\', d]) ∨
      (c = '\r' ∧ escapeChar c = []) ∨
      (c ∉ ['"', '\\', '\n', '\r'] ∧ escapeChar c = [c]) := by
  unfold escapeChar
  split
  · rename_i h
    exact .inl ⟨'"', by decide, h, rfl⟩
  · rename_i hquote
    split
    · rename_i h
      exact .inl ⟨'\\', by decide, h, rfl⟩
    · rename_i hslash
      split
      · rename_i h
        exact .inl ⟨'n', by decide, h, rfl⟩
      · rename_i hfeed
        split
        · rename_i h
          exact .inr (.inl ⟨h, rfl⟩)
        · rename_i hreturn
          exact .inr (.inr ⟨by simp [hquote, hslash, hfeed, hreturn], rfl⟩)

def quoted (text : String) : String :=
  String.ofList ('"' :: text.toList.flatMap escapeChar ++ ['"'])

end Ambient.Text
