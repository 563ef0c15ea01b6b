import Mathlib.Data.Nat.Bitwise
import CilWeave.Flags

/-
The written form of a set of flags names the set.

Whatever order the names stand in and however they overlap, the bits that were written and those
that remain make up the set after every name (`exists_covering`), so the names and the number
behind them give back the bits (`read?_write`). The words of a written set are found again because
no word has white space or a bar in it, and no name looks like a number.
-/

namespace CilWeave

/-! ## Base sixteen -/

namespace Radix

theorem hexDigit?_digitChar : ∀ d < 16, hexDigit? (Nat.digitChar d) = some d := by decide

theorem toList_hex (n : Nat) : (hex n).toList = Nat.toDigits 16 n := String.toList_ofList

theorem mem_toDigits {n : Nat} {c : Char} (h : c ∈ Nat.toDigits 16 n) :
    ∃ d < 16, c = Nat.digitChar d := by
  induction n using Nat.strong_induction_on with
  | _ n ih =>
    rw [Nat.toDigits_eq_if (by decide)] at h
    split at h
    · rename_i hlt
      exact ⟨n, hlt, List.mem_singleton.mp h⟩
    · rcases List.mem_append.mp h with hfront | hlast
      · exact ih (n / 16) (by omega) hfront
      · exact ⟨n % 16, Nat.mod_lt n (by decide), List.mem_singleton.mp hlast⟩

theorem foldlM_toDigits (n : Nat) :
    (Nat.toDigits 16 n).foldlM (fun n c => (hexDigit? c).map (16 * n + ·)) 0 = some n := by
  induction n using Nat.strong_induction_on with
  | _ n ih =>
    rw [Nat.toDigits_eq_if (by decide)]
    split
    · rename_i hlt
      simp [hexDigit?_digitChar n hlt]
    · have hfront := ih (n / 16) (by omega)
      have hlast := hexDigit?_digitChar (n % 16) (Nat.mod_lt n (by decide))
      rw [List.foldlM_append, hfront]
      simp only [List.foldlM_cons, List.foldlM_nil, hlast, Option.map_some, Option.bind_eq_bind,
        Option.bind_some, Option.pure_def, Option.some.injEq]
      exact Nat.div_add_mod n 16

theorem ofHex?_toDigits (n : Nat) : ofHex? (Nat.toDigits 16 n) = some n := by
  unfold ofHex?
  split
  · rename_i hnil
    exact absurd hnil Nat.toDigits_ne_nil
  · exact foldlM_toDigits n

end Radix

namespace FlagNames

/-! ## Words -/

/-- A text without white space and bars, and not empty. -/
def IsWord (text : List Char) : Prop :=
  text ≠ [] ∧ ∀ c ∈ text, c ≠ '|' ∧ Blank.isBlank c = false

instance (text : List Char) : Decidable (IsWord text) :=
  @instDecidableAnd (text ≠ []) _ inferInstance (List.decidableBAll _ text)

theorem IsWord.bar_not_mem {word : List Char} (h : IsWord word) : '|' ∉ word :=
  fun hbar => (h.2 '|' hbar).1 rfl

theorem IsWord.reverse {word : List Char} (h : IsWord word) : IsWord word.reverse :=
  ⟨fun hnil => h.1 (List.reverse_eq_nil_iff.mp hnil),
    fun c hc => h.2 c (List.mem_reverse.mp hc)⟩

theorem IsWord.dropWhile_append {word : List Char} (h : IsWord word) (rest : List Char) :
    (word ++ rest).dropWhile Blank.isBlank = word ++ rest := by
  obtain ⟨hne, hchars⟩ := h
  cases word with
  | nil => exact absurd rfl hne
  | cons c cs =>
    have hc := (hchars c List.mem_cons_self).2
    rw [List.cons_append, List.dropWhile_cons_of_neg (by simp [hc])]

/-- White space around a text that starts and ends with words does not count. -/
theorem trim_append {text first last before after : List Char} (hfirst : IsWord first)
    (hfront : ∃ rest, text = first ++ rest) (hlast : IsWord last)
    (hback : ∃ front, text = front ++ last) (hbefore : ∀ c ∈ before, Blank.isBlank c = true)
    (hafter : ∀ c ∈ after, Blank.isBlank c = true) :
    Blank.trim (before ++ text ++ after) = text := by
  obtain ⟨rest, hrest⟩ := hfront
  obtain ⟨front, hend⟩ := hback
  have hdrop : (before ++ text ++ after).dropWhile Blank.isBlank = text ++ after := by
    rw [List.append_assoc, List.dropWhile_append_of_pos hbefore, hrest, List.append_assoc,
      hfirst.dropWhile_append]
  have hreverse : (text ++ after).reverse.dropWhile Blank.isBlank = text.reverse := by
    rw [List.reverse_append,
      List.dropWhile_append_of_pos fun c hc => hafter c (List.mem_reverse.mp hc),
      hend, List.reverse_append, hlast.reverse.dropWhile_append]
  rw [Blank.trim, hdrop, hreverse, List.reverse_reverse]

theorem trim_word {word before after : List Char} (h : IsWord word)
    (hbefore : ∀ c ∈ before, Blank.isBlank c = true)
    (hafter : ∀ c ∈ after, Blank.isBlank c = true) :
    Blank.trim (before ++ word ++ after) = word :=
  trim_append h ⟨[], (List.append_nil word).symm⟩ h ⟨[], rfl⟩ hbefore hafter

/-! ## Words with bars between them -/

/-- The words with a bar and white space between them. -/
def barred (words : List (List Char)) : List Char := [' ', '|', ' '].intercalate words

theorem barred_cons_cons (word next : List Char) (words : List (List Char)) :
    barred (word :: next :: words) = word ++ [' '] ++ '|' :: ([' '] ++ barred (next :: words)) := by
  unfold barred
  rw [List.intercalate_cons_cons]
  simp

theorem barred_front (word : List Char) (words : List (List Char)) :
    ∃ rest, barred (word :: words) = word ++ rest := by
  cases words with
  | nil => exact ⟨[], by simp [barred]⟩
  | cons next words =>
    rw [barred_cons_cons, List.append_assoc]
    exact ⟨_, rfl⟩

theorem barred_back : ∀ (word : List Char) (words : List (List Char)),
    ∃ last ∈ word :: words, ∃ front, barred (word :: words) = front ++ last
  | word, [] => ⟨word, List.mem_cons_self, [], by simp [barred]⟩
  | word, next :: words => by
    obtain ⟨last, hmem, front, hfront⟩ := barred_back next words
    refine ⟨last, List.mem_cons_of_mem word hmem, word ++ [' '] ++ '|' :: ([' '] ++ front), ?_⟩
    rw [barred_cons_cons, hfront]
    simp

theorem trim_barred {word : List Char} {words : List (List Char)}
    (h : ∀ w ∈ word :: words, IsWord w) :
    Blank.trim (barred (word :: words)) = barred (word :: words) := by
  obtain ⟨last, hmem, hback⟩ := barred_back word words
  have htrim :=
    trim_append (h word List.mem_cons_self) (barred_front word words) (h last hmem) hback
    (List.forall_mem_nil _) (List.forall_mem_nil _)
  simpa using htrim

/-- Taken apart at the bars, the text gives back the words. -/
theorem map_trim_split : ∀ {word : List Char} {words : List (List Char)} {before : List Char},
    (∀ w ∈ word :: words, IsWord w) → (∀ c ∈ before, Blank.isBlank c = true) →
    (Pieces.split '|' (before ++ barred (word :: words))).map Blank.trim = word :: words
  | word, words, before, h, hbefore => by
    have hword := h word List.mem_cons_self
    have hbar : '|' ∉ before := fun hm => absurd (hbefore '|' hm) (by decide)
    cases words with
    | nil =>
      have hmid : '|' ∉ before ++ word := by
        rw [List.mem_append, not_or]
        exact ⟨hbar, hword.bar_not_mem⟩
      have htrim := trim_word hword hbefore (List.forall_mem_nil _)
      rw [List.append_nil] at htrim
      show (Pieces.split '|' (before ++ barred [word])).map Blank.trim = [word]
      rw [barred, List.intercalate_singleton, Pieces.split_of_not_mem hmid, List.map_singleton,
        htrim]
    | cons next words =>
      have hmid : '|' ∉ before ++ (word ++ [' ']) := by
        rw [List.mem_append, List.mem_append, not_or, not_or]
        exact ⟨hbar, hword.bar_not_mem, by decide⟩
      have hblank : ∀ c ∈ [' '], Blank.isBlank c = true := List.forall_mem_singleton.mpr rfl
      have hrest := map_trim_split (fun w hw => h w (List.mem_cons_of_mem word hw)) hblank
      rw [barred_cons_cons, ← List.append_assoc, Pieces.split_append_cons hmid, List.map_cons,
        hrest, ← List.append_assoc, trim_word hword hbefore hblank]

/-! ## The names of a set -/

/-- Names that can be read: each stands for its own bits, is a word, and is no number. -/
structure Readable (flags : FlagNames) : Prop where
  own : ∀ p ∈ flags.names, flags.bitsOf? p.1 = some p.2
  words : ∀ p ∈ flags.names, IsWord p.1.toList
  named : ∀ p ∈ flags.names, p.1.toList.take 2 ≠ ['0', 'x']

variable {flags : FlagNames} {bits : Nat}

theorem readOne?_name {name : String} (h : name.toList.take 2 ≠ ['0', 'x']) :
    flags.readOne? name.toList = flags.bitsOf? name := by
  unfold readOne?
  split
  · rename_i hnumber
    rw [hnumber] at h
    exact absurd rfl h
  · rw [String.ofList_toList]

theorem toList_number (n : Nat) :
    ("0x" ++ Radix.hex n).toList = '0' :: 'x' :: Nat.toDigits 16 n := by
  rw [String.toList_append, Radix.toList_hex]
  rfl

theorem readOne?_number {n : Nat} (h : n < 2 ^ flags.width) :
    flags.readOne? ("0x" ++ Radix.hex n).toList = some n := by
  have hplus : ∀ rest, Nat.toDigits 16 n ≠ '+' :: rest := by
    intro rest hrest
    obtain ⟨d, hd, hchar⟩ := Radix.mem_toDigits (hrest ▸ List.mem_cons_self)
    revert d
    decide
  rw [toList_number, readOne?]
  · rw [Radix.ofHex?_toDigits]
    exact if_pos (decide_eq_true h)
  · exact hplus

theorem isWord_number (n : Nat) : IsWord ("0x" ++ Radix.hex n).toList := by
  have hdigit : ∀ d < 16, Nat.digitChar d ≠ '|' ∧ Blank.isBlank (Nat.digitChar d) = false := by
    decide
  rw [toList_number]
  refine ⟨List.cons_ne_nil _ _, fun c hc => ?_⟩
  rcases List.mem_append.mp (show c ∈ ['0', 'x'] ++ Nat.toDigits 16 n from hc) with hmark | hdigits
  · exact (show IsWord ['0', 'x'] by decide).2 c hmark
  · obtain ⟨d, hd, rfl⟩ := Radix.mem_toDigits hdigits
    exact hdigit d hd

/-- After a name was written, the written bits and the rest still make up the set. -/
theorem or_uncovered {bits flag done rest : Nat} (hflag : flag &&& bits = flag)
    (hdone : done ||| rest = bits) : (done ||| flag) ||| (rest &&& (rest ^^^ flag)) = bits := by
  apply Nat.eq_of_testBit_eq
  intro i
  have hflag := congrArg (Nat.testBit · i) hflag
  have hdone := congrArg (Nat.testBit · i) hdone
  simp only [Nat.testBit_and, Nat.testBit_or, Nat.testBit_xor] at hflag hdone ⊢
  revert hflag hdone
  generalize bits.testBit i = b, flag.testBit i = f, done.testBit i = d, rest.testBit i = r
  revert b f d r
  decide

/-- The bits that are left over are bits of the set. -/
theorem covering_le (bits : Nat) : ∀ (names : List (String × Nat)) (rest : Nat),
    (covering bits names rest).2 ≤ rest
  | [], rest => Nat.le_refl rest
  | (name, flag) :: names, rest => by
    unfold covering
    split
    · exact Nat.le_trans (covering_le bits names _) Nat.and_le_left
    · exact covering_le bits names rest

theorem mem_covering {bits : Nat} {name : String} : ∀ {names : List (String × Nat)} {rest : Nat},
    name ∈ (covering bits names rest).1 → ∃ flag, (name, flag) ∈ names
  | [], _, h => absurd h (List.not_mem_nil)
  | (other, flag) :: names, rest, h => by
    unfold covering at h
    split at h
    · rcases List.mem_cons.mp h with rfl | hmore
      · exact ⟨flag, List.mem_cons_self⟩
      · obtain ⟨flag, hmem⟩ := mem_covering hmore
        exact ⟨flag, List.mem_cons_of_mem _ hmem⟩
    · obtain ⟨flag, hmem⟩ := mem_covering h
      exact ⟨flag, List.mem_cons_of_mem _ hmem⟩

/-- The names that are written and the bits that are left over make up the set. -/
theorem exists_covering {flags : FlagNames} {bits : Nat} :
    ∀ {names : List (String × Nat)} {done rest : Nat},
      (∀ p ∈ names, flags.bitsOf? p.1 = some p.2) → done ||| rest = bits →
      ∃ named, (covering bits names rest).1.foldlM
          (fun done name => (flags.bitsOf? name).map (done ||| ·)) done = some named ∧
        named ||| (covering bits names rest).2 = bits
  | [], done, rest, _, hdone => ⟨done, rfl, hdone⟩
  | (name, flag) :: names, done, rest, hown, hdone => by
    have hname := hown _ List.mem_cons_self
    have hnames := fun p hp => hown p (List.mem_cons_of_mem (name, flag) hp)
    unfold covering
    split
    · rename_i hcovered
      obtain ⟨named, hnamed, hbits⟩ :=
        exists_covering hnames (or_uncovered hcovered.1 hdone)
      refine ⟨named, ?_, hbits⟩
      rw [List.foldlM_cons, hname]
      exact hnamed
    · exact exists_covering hnames hdone

/-! ## Reading what was written -/

def wordsOf (flags : FlagNames) (bits : Nat) : List String :=
  let (names, left) := covering bits flags.names bits
  names ++ if left = 0 then [] else ["0x" ++ Radix.hex left]

theorem isWord_of_mem_wordsOf (h : flags.Readable) :
    ∀ word ∈ (flags.wordsOf bits).map String.toList, IsWord word := by
  intro word hword
  obtain ⟨text, htext, rfl⟩ := List.mem_map.mp hword
  rcases List.mem_append.mp htext with hname | hnumber
  · obtain ⟨flag, hmem⟩ := mem_covering hname
    exact h.words _ hmem
  · split at hnumber
    · cases hnumber
    · rw [List.mem_singleton.mp hnumber]
      exact isWord_number _

theorem foldlM_names (h : flags.Readable) : ∀ (names : List String) (done : Nat),
    (∀ name ∈ names, ∃ flag, (name, flag) ∈ flags.names) →
    (names.map String.toList).foldlM
        (fun done word => (flags.readOne? word).map (done ||| ·)) done =
      names.foldlM (fun done name => (flags.bitsOf? name).map (done ||| ·)) done
  | [], _, _ => rfl
  | name :: names, done, hmem => by
    obtain ⟨flag, hflag⟩ := hmem name List.mem_cons_self
    rw [List.map_cons, List.foldlM_cons, List.foldlM_cons, readOne?_name (h.named _ hflag),
      h.own _ hflag]
    exact foldlM_names h names _ fun n hn => hmem n (List.mem_cons_of_mem name hn)

theorem foldlM_wordsOf (h : flags.Readable) (hbits : bits < 2 ^ flags.width) :
    ((flags.wordsOf bits).map String.toList).foldlM
      (fun done word => (flags.readOne? word).map (done ||| ·)) 0 = some bits := by
  obtain ⟨named, hnamed, hsum⟩ := exists_covering h.own (Nat.zero_or bits)
  have hleft := Nat.lt_of_le_of_lt (covering_le bits flags.names bits) hbits
  have hnames : ((covering bits flags.names bits).1.map String.toList).foldlM
      (fun done word => (flags.readOne? word).map (done ||| ·)) 0 = some named :=
    (foldlM_names h _ 0 fun _ => mem_covering).trans hnamed
  show (((covering bits flags.names bits).1 ++ _).map String.toList).foldlM _ 0 = _
  rw [List.map_append, List.foldlM_append, hnames]
  split
  · rename_i hzero
    rw [hzero, Nat.or_zero] at hsum
    exact congrArg some hsum
  · show (flags.readOne? _).map (named ||| ·) >>= pure = some bits
    rw [readOne?_number hleft]
    exact congrArg some hsum

theorem foldlM_pieces : ∀ {pieces : List (List Char)} {done : Nat},
    (∀ word ∈ pieces.map Blank.trim, IsWord word) →
    pieces.foldlM (fun done piece =>
        let piece := Blank.trim piece
        if piece.isEmpty then none else (flags.readOne? piece).map (done ||| ·)) done =
      (pieces.map Blank.trim).foldlM (fun done word => (flags.readOne? word).map (done ||| ·)) done
  | [], _, _ => rfl
  | piece :: pieces, done, h => by
    have hfilled : (Blank.trim piece).isEmpty = false :=
      List.isEmpty_eq_false_iff.mpr (h _ List.mem_cons_self).1
    rw [List.map_cons, List.foldlM_cons, List.foldlM_cons]
    simp only [hfilled, Bool.false_eq_true, if_false]
    refine congrArg (_ >>= ·) (funext fun done => ?_)
    exact foldlM_pieces fun word hword => h word (List.mem_cons_of_mem _ hword)

/-- A set is read back from its written form, with the bits that have no name. -/
theorem read?_write (h : flags.Readable) (hbits : bits < 2 ^ flags.width) :
    flags.read? (flags.write bits) = some bits := by
  have htext : (flags.write bits).toList = barred ((flags.wordsOf bits).map String.toList) :=
    String.toList_intercalate
  have hwords : ∀ word ∈ (flags.wordsOf bits).map String.toList, IsWord word :=
    isWord_of_mem_wordsOf h
  have hread := foldlM_wordsOf h hbits
  unfold read?
  rw [htext]
  cases hlist : (flags.wordsOf bits).map String.toList with
  | nil =>
    rw [hlist] at hread
    exact hread
  | cons word words =>
    rw [hlist] at hwords hread
    have hsplit : (Pieces.split '|' (barred (word :: words))).map Blank.trim = word :: words :=
      map_trim_split hwords (List.forall_mem_nil _)
    have hfilled : (barred (word :: words)).isEmpty = false := by
      obtain ⟨rest, hrest⟩ := barred_front word words
      rw [hrest, List.isEmpty_eq_false_iff]
      exact List.append_ne_nil_of_left_ne_nil (hwords word List.mem_cons_self).1 rest
    simp only [trim_barred hwords, hfilled, Bool.false_eq_true, if_false]
    rw [foldlM_pieces (hsplit.symm ▸ hwords), hsplit]
    exact hread

end FlagNames

end CilWeave
