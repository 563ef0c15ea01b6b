import CilWeave.Text.Columns.Classes

/-
How many columns a text takes on a terminal.

A character by itself takes one column, none or two. Some characters take other
columns together than one by one: letters that join into one shape, a picture with a
tone of skin, several pictures that are joined into one, and a character with a
selector behind it that asks for its picture or for its plain form.

The columns of a character can thus depend on what follows it. A text is read from
its end: `before` says what a character adds in front of a `Following`, and what then
follows the character in front of it. `of` is the sum.
-/

namespace CilWeave.Columns

/-- Letters that can join with what stands in front of them. -/
inductive Letter where
  /-- An Arabic letter of the group of alef. -/
  | alef
  /-- The Hebrew letter lamed. -/
  | lamed
  /-- The Buginese letter ya. -/
  | ya
  /-- The Buginese vowel that stands in front of a joined ya. -/
  | vowelBeforeYa
  /-- A consonant of Tifinagh. -/
  | tifinagh
  /-- The joiner of Tifinagh in front of a consonant. -/
  | tifinaghJoiner
  /-- A Lisu tone that can be the second of two. -/
  | lisuTone
  /-- The Old Turkic letter i. -/
  | orkhonI
  /-- A Khmer letter that can stand below the letter before it. -/
  | khmer
  deriving DecidableEq, Repr, Inhabited

/-- What a text starts with, as far as it matters to the character in front of it. -/
inductive Start where
  /-- Nothing that matters. -/
  | plain
  /-- A line feed. -/
  | lineFeed
  /-- A letter, and whether there is a joiner in front of it. -/
  | letter (letter : Letter) (joined : Bool)
  /-- The Kirat Rai vowel e. -/
  | vowelE
  /-- The Kirat Rai vowel ai. -/
  | vowelAi
  /-- A picture. -/
  | picture
  /-- A tone of skin. -/
  | skinTone
  /-- One letter of a flag. -/
  | flagLetter
  /-- Several letters of flags. -/
  | flagLetters
  /-- A picture with a joiner in front of it. -/
  | joinedPicture
  /-- The frame of a key in front of a joined picture. -/
  | joinedKey
  /-- One letter of a flag in front of a joined picture. -/
  | joinedFlagLetter
  /-- Flags of two letters each in front of a joined picture. -/
  | joinedFlags
  /-- Flags in front of a joined picture, and a letter in front of them. -/
  | joinedFlagsAndLetter
  /-- The end of a tag sequence in front of a joined picture. -/
  | tagEnd
  /-- Digits of such a sequence. -/
  | tagDigits (count : Nat)
  /-- Letters of such a sequence. -/
  | tagLetters (count : Nat)
  deriving DecidableEq, Repr, Inhabited

/-- What follows a character: selectors, and the text behind them. -/
structure Following where
  /-- What the text starts with. -/
  start : Start
  /-- Whether a selector asks for the plain form. -/
  asText : Bool
  /-- Whether a selector asks for the picture. -/
  asPicture : Bool
  /-- Whether a selector asks for the wide form. -/
  asWide : Bool
  deriving DecidableEq, Repr, Inhabited

/-- A text without selectors in front of it. -/
def Start.following (start : Start) : Following := ⟨start, false, false, false⟩

def nothing : Following := Start.plain.following

/-! Classes of characters. -/

/-- Whether a code point is in a range. -/
def within (c : Char) (first last : Nat) : Bool := first ≤ c.toNat && c.toNat ≤ last

/-- Whether a character joins those around it. -/
def isJoiner (c : Char) : Bool := c.toNat == 0x200D

def isFlagLetter (c : Char) : Bool := within c 0x1F1E6 0x1F1FF

def isSkinTone (c : Char) : Bool := within c 0x1F3FB 0x1F3FF

def isTifinagh (c : Char) : Bool := within c 0x2D31 0x2D65 || c.toNat == 0x2D6F

/-- Whether a character is a quotation mark with a wide form. -/
def isQuotationMark (c : Char) : Bool := within c 0x2018 0x2019 || within c 0x201C 0x201D

/-- Whether a character is a picture by itself that also has a plain form of one
column. -/
def isPlainable (c : Char) : Bool :=
  selectable.contains c && pictures.contains c && !within c 0x1F200 0x1F2FF

/-- Whether an Arabic ligature goes on past a character. -/
def isTransparent (c : Char) : Bool := zeroWidth.contains c && !interrupting.contains c

/-! Characters by themselves. -/

/-- The start of a text that is one character, which is no control character. -/
def startOf (c : Char) : Start :=
  match c.toNat with
  | 0x5DC => .letter .lamed false
  | 0x1A10 => .letter .ya false
  | 0xA4FC | 0xA4FD => .letter .lisuTone false
  | 0x10C03 => .letter .orkhonI false
  | 0x16D67 => .vowelE
  | 0x16D68 => .vowelAi
  | _ =>
    if alefs.contains c then .letter .alef false
    else if subscripts.contains c then .letter .khmer false
    else if isTifinagh c then .letter .tifinagh false
    else if isFlagLetter c then .flagLetter
    else if isSkinTone c then .skinTone
    else if pictures.contains c then .picture
    else .plain

/-- The columns of a character by itself. -/
def ofChar (c : Char) : Nat :=
  if c.toNat ≤ 0xA0 then 1
  else if c.toNat == 0x17D8 then 3
  else if zeroWidth.contains c then 0
  else if doubleWidth.contains c then 2
  else 1

/-- A character that does not join with what follows it. -/
def alone (c : Char) : Int × Following := (ofChar c, (startOf c).following)

/-! Selectors. -/

/-- What follows a character that has no picture: the selector for the picture is taken
off a letter, and anything else ends with it. -/
def Following.dropPicture (f : Following) : Following :=
  match f.start with
  | .letter .. => { f with asPicture := false }
  | _ => if f.asPicture then nothing else f

/-- What a character joins with that no selector is meant for: a letter behind its
selectors, or anything else without selectors. -/
def Following.rest (f : Following) : Start :=
  match f.start with
  | .letter letter joined => .letter letter joined
  | start => if f = start.following then start else .plain

/-- What follows a character with one more selector in front of it, if `c` is one. -/
def Following.select? (f : Following) (c : Char) : Option Following :=
  match c.toNat with
  | 0xFE01 =>
    match f.start with
    | .letter .. => some { f with asWide := true }
    | _ => some { nothing with asWide := true }
  | 0xFE0E =>
    match f.start with
    | .letter .. => some { f with asText := true }
    | _ => some { nothing with asText := true }
  | 0xFE0F =>
    match f.start with
    | .letter .. | .joinedPicture | .joinedKey => some { f with asPicture := true }
    | _ => some { nothing with asPicture := true }
  | _ => none

/-! Characters that join with what follows them. -/

/-- What a character adds to a letter it joins with. -/
def joinLetter? (letter : Letter) (joined : Bool) (c : Char) : Option (Int × Following) :=
  match letter with
  | .alef =>
    if lams.contains c then some (0, nothing)
    else if isTransparent c then some (0, (Start.letter .alef false).following)
    else none
  | .lamed => if joined && c.toNat == 0x5D0 then some (0, nothing) else none
  | .ya =>
    if joined && c.toNat == 0x1A17 then some (0, (Start.letter .vowelBeforeYa false).following)
    else none
  | .vowelBeforeYa => if c.toNat == 0x1A15 then some (0, nothing) else none
  | .tifinagh =>
    if c.toNat == 0x2D7F then some (1, (Start.letter .tifinaghJoiner false).following)
    else if joined && isTifinagh c then some (0, nothing)
    else none
  | .tifinaghJoiner => if isTifinagh c then some (-1, nothing) else none
  | .lisuTone => if within c 0xA4F8 0xA4FB then some (0, nothing) else none
  | .orkhonI => if joined && c.toNat == 0x10C32 then some (0, nothing) else none
  | .khmer => if c.toNat == 0x17D2 then some (-1, nothing) else none

/-- What a character adds to a vowel, a picture or a flag it joins with. -/
def joinStart? (start : Start) (c : Char) : Option (Int × Following) :=
  match start with
  | .vowelE =>
    match c.toNat with
    | 0x16D63 | 0x16D69 => some (0, nothing)
    | 0x16D67 => some (0, Start.vowelAi.following)
    | 0x16D68 => some (1, Start.vowelE.following)
    | _ => none
  | .vowelAi => if c.toNat == 0x16D63 then some (0, nothing) else none
  | .picture => if isJoiner c then some (0, Start.joinedPicture.following) else none
  | .skinTone =>
    if toned.contains c then some (0, Start.picture.following)
    else if isJoiner c then some (0, Start.joinedPicture.following)
    else none
  | .flagLetter => if isFlagLetter c then some (1, Start.flagLetters.following) else none
  | .flagLetters =>
    if isFlagLetter c then some (1, Start.flagLetters.following)
    else if isJoiner c then some (0, Start.joinedPicture.following)
    else none
  | .joinedPicture =>
    if c.toNat == 0x20E3 then some (0, Start.joinedKey.following)
    else if isFlagLetter c then some (1, Start.joinedFlagLetter.following)
    else if isSkinTone c then some (0, Start.skinTone.following)
    else if c.toNat == 0xE007F then some (0, Start.tagEnd.following)
    else if startOf c = .picture then some (0, Start.picture.following)
    else none
  | .joinedFlagLetter => if isFlagLetter c then some (-1, Start.joinedFlags.following) else none
  | .joinedFlags =>
    if isFlagLetter c then some (3, Start.joinedFlagsAndLetter.following)
    else if isJoiner c then some (0, Start.joinedPicture.following)
    else none
  | .joinedFlagsAndLetter =>
    if isFlagLetter c then some (-1, Start.joinedFlags.following)
    else if isJoiner c then some (0, Start.joinedPicture.following)
    else none
  | .tagEnd =>
    if within c 0xE0061 0xE007A then some (0, (Start.tagLetters 1).following)
    else if within c 0xE0030 0xE0039 then some (0, (Start.tagDigits 1).following)
    else none
  | .tagLetters count =>
    if count < 6 && within c 0xE0061 0xE007A then some (0, (Start.tagLetters (count + 1)).following)
    else if count < 5 && within c 0xE0030 0xE0039 then some (0, (Start.tagDigits 1).following)
    else if 3 ≤ count && c.toNat == 0x1F3F4 then some (0, Start.picture.following)
    else none
  | .tagDigits count =>
    if count < 3 && within c 0xE0030 0xE0039 then some (0, (Start.tagDigits (count + 1)).following)
    else if count == 3 && c.toNat == 0x1F3F4 then some (0, Start.picture.following)
    else none
  | .plain | .lineFeed | .joinedKey | .letter .. => none

/-- What a character adds that is no selector and that none is meant for. A joiner
stays with the letter behind it, unless that is an alef. -/
def join (c : Char) (start : Start) : Int × Following :=
  match start with
  | .letter letter joined =>
    if isJoiner c && letter ≠ .alef then (0, (Start.letter letter true).following)
    else if passing.contains c then (0, start.following)
    else (joinLetter? letter joined c).getD (alone c)
  | start => (joinStart? start c).getD (alone c)

/-! Texts. -/

/-- What a character adds to the text that follows it, and the two together. -/
def before (c : Char) (f : Following) : Int × Following :=
  if f.asPicture && selectable.contains c then
    match f.start with
    | .joinedPicture | .joinedKey => (0, Start.picture.following)
    | _ => (2, Start.picture.following)
  else
    let f := f.dropPicture
    if c == '\n' then (1, Start.lineFeed.following)
    else if c == '\r' && f.start = .lineFeed then (0, nothing)
    else if c.toNat ≤ 0xA0 then (1, nothing)
    else
      match f.select? c with
      | some f => (0, f)
      | none =>
        if f.asText && isPlainable c then (1, nothing)
        else if f.asWide && isQuotationMark c then (2, nothing)
        else join c f.rest

def of (cs : List Char) : Nat :=
  (cs.foldr (fun c (columns, f) =>
    let (more, f) := before c f
    (columns + more, f)) ((0 : Int), nothing)).1.toNat

end CilWeave.Columns
