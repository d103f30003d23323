import SolidityFlattener.Text.Basic

/-!
Text as UTF-8 bytes. Decoding is strict: surrogates, overlong forms and values above U+10FFFF have
no text. A byte order mark is an ordinary character here.

A string of a document can hold one half of a surrogate pair, which no text can and which has no
bytes. Where such a string is used as a text, a mark takes the place of the half: a null character,
which no path can hold either, and a private one that tells which half it is.
-/

namespace SolidityFlattener.Text

def toUtf8 (t : Text) : ByteArray := (String.ofList t).toUTF8

/-- The text that bytes stand for, where they are well formed. -/
def ofUtf8? (bytes : ByteArray) : Option Text := (String.fromUTF8? bytes).map String.toList

def utf8Size (t : Text) : Nat := t.foldl (fun size c => size + c.utf8Size) 0

/-- The mark for half a pair. -/
def halfMark (n : Fin 0x800) : Text := [Char.ofNat 0, Char.ofNat (0xE000 + n.val)]

/-- The half that two characters mark. -/
def markedHalf? (a b : Char) : Option (Fin 0x800) :=
  if h : a = Char.ofNat 0 ∧ 0xE000 ≤ b.toNat ∧ b.toNat < 0xE800 then
    some ⟨b.toNat - 0xE000, by omega⟩
  else none

def holdsHalf : Text → Bool
  | a :: b :: rest => (markedHalf? a b).isSome || holdsHalf (b :: rest)
  | _ => false

end SolidityFlattener.Text
