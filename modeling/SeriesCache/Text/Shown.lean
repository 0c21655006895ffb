import SeriesCache.Text.Visible
/-!
# Texts as messages show them

A message shows a text in double quotes, so that one can tell where it ends and what is in it.
A quote, a backslash and the usual blanks have short escapes; any other character that is not
visible is written by its code point in hexadecimal digits.
-/
namespace SeriesCache.Text

def shortEscapes : List (Char × Char) :=
  [('\x00', '0'), ('\t', 't'), ('\r', 'r'), ('\n', 'n'), ('\\', '\\'), ('"', '"')]

def codePointText (c : Char) : Text := '\\' :: 'u' :: '{' :: Nat.toDigits 16 c.toNat ++ ['}']

def shownChar (c : Char) : Text :=
  match shortEscapes.lookup c with
  | some letter => ['\\', letter]
  | none => if isVisible c then [c] else codePointText c

def shown (s : Text) : Text := '"' :: s.flatMap shownChar ++ ['"']

def shownAll (texts : List Text) : Text := '[' :: join [',', ' '] (texts.map shown) ++ [']']

end SeriesCache.Text
