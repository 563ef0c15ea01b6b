import Mathlib.Computability.Language
import CilWeave.Proofs.Record.Reading

/-
The language of records.

`RecordLanguage.texts` says which lines, one after the other, are a record for a fingerprint:
blocks of a type with at least one method, and between and inside them the line of the
fingerprint and empty lines. It is put together from one line languages by union, product and
star, and says nothing of how lines are read. `RecordLanguage.Holds` gives the blocks along with
the lines.
-/

namespace CilWeave

open scoped Computability

/-! ## Lines -/

namespace RecordLine

def said (line : String) : RecordLine := ofTrimmed line.toList

variable {line name text rest : String}

theorem said_fingerprint : said ("X " ++ text) = .fingerprint text := by
  simp [said, String.toList_append, ofTrimmed]

theorem said_type : said ("T " ++ name) = .type name := by
  simp [said, String.toList_append, ofTrimmed]

theorem said_method : said ("M " ++ name) = .method name := by
  simp [said, String.toList_append, ofTrimmed]

theorem said_annotated : said ("E " ++ rest) = .terminator := by
  simp [said, String.toList_append, ofTrimmed]

/-- The line that says something, as it is written. -/
theorem eq_of_said (line : String) :
    match said line with
    | .fingerprint text => line = "X " ++ text
    | .type name => line = "T " ++ name
    | .method name => line = "M " ++ name
    | .terminator => line = "E" ∨ ∃ rest, line = "E " ++ rest
    | .blank => line = ""
    | .unknown => True := by
  obtain ⟨cs, rfl⟩ : ∃ cs, line = String.ofList cs := ⟨line.toList, String.ofList_toList.symm⟩
  unfold said
  rw [String.toList_ofList]
  fun_cases ofTrimmed cs with
  | case5 rest => exact .inr ⟨String.ofList rest, by simp [← String.toList_inj]⟩
  | case7 => trivial
  | _ => simp [← String.toList_inj]

end RecordLine

/-! ## The language -/

namespace RecordLanguage

open RecordLine (said said_fingerprint said_type said_method said_annotated eq_of_said)

variable {fingerprint type name line terminator : String} {lines inner rest : List String}
  {entries : List (String × List String)}

/-- Lines that may stand anywhere: the one of the fingerprint, and empty ones. -/
def fillers (fingerprint : String) : Language String := {["X " ++ fingerprint]} + {[""]}

/-- The line that opens the block of a type. -/
def openings : Language String := {lines | ∃ name, lines = ["T " ++ name]}

def methods : Language String := {lines | ∃ name, lines = ["M " ++ name]}

/-- A line that ends a block. -/
def endings : Language String := {lines | lines = ["E"] ∨ ∃ rest, lines = ["E " ++ rest]}

/-- A block: a type, its methods, one of them at least, and an end. -/
def blocks (fingerprint : String) : Language String :=
  openings * (fillers fingerprint)∗ * methods * (methods + fillers fingerprint)∗ * endings

/-- The lines of a record, which need not state the fingerprint. -/
def texts (fingerprint : String) : Language String := (fillers fingerprint + blocks fingerprint)∗

/-- The lines of a record that state the fingerprint. -/
def records (fingerprint : String) : Language String :=
  {lines | lines ∈ texts fingerprint ∧ "X " ++ fingerprint ∈ lines}

/-- The lines are the start of lines of a record. -/
def Viable (fingerprint : String) (lines : List String) : Prop :=
  ∃ rest, lines ++ rest ∈ texts fingerprint

/-- The line at position `n` is the first with which the lines are not viable. -/
def FirstViolation (fingerprint : String) (lines : List String) (n : Nat) : Prop :=
  n < lines.length ∧ Viable fingerprint (lines.take n) ∧ ¬ Viable fingerprint (lines.take (n + 1))

/-- The lines end inside the block of a type. -/
def InBlock (fingerprint : String) (lines : List String) (type : String) : Prop :=
  ∃ front inner, lines = front ++ ("T " ++ type) :: inner ∧ front ∈ texts fingerprint ∧
    inner ∈ (methods + fillers fingerprint)∗

/-- The block of a type has no end where it should: in it line `number` opens another one, which
is the first line that is no continuation of those before it, or it is open behind the last line,
which is line `number`. -/
inductive Unterminated (fingerprint : String) (lines : List String) : Nat → String → Prop where
  | reopened {n : Nat} {type name : String} (hfirst : FirstViolation fingerprint lines n)
      (hline : lines[n]? = some ("T " ++ name))
      (hblock : InBlock fingerprint (lines.take n) type) :
      Unterminated fingerprint lines (n + 1) type
  | unended {type : String} (hnone : ∀ n, ¬ FirstViolation fingerprint lines n)
      (hblock : InBlock fingerprint lines type) :
      Unterminated fingerprint lines lines.length type

/-- A block of the lines names a method of a type. -/
def Lists (fingerprint : String) (lines : List String) (type name : String) : Prop :=
  ∃ front inner ending back, lines = front ++ (("T " ++ type) :: inner ++ [ending]) ++ back ∧
    front ∈ texts fingerprint ∧ ("T " ++ type) :: inner ++ [ending] ∈ blocks fingerprint ∧
    back ∈ texts fingerprint ∧ "M " ++ name ∈ inner

/-! ### Words line by line -/

theorem mem_fillers : [line] ∈ fillers fingerprint ↔ line = "X " ++ fingerprint ∨ line = "" := by
  unfold fillers
  rw [Language.mem_add]
  exact or_congr List.singleton_inj List.singleton_inj

theorem mem_methods : [line] ∈ methods ↔ ∃ name, line = "M " ++ name := by
  show (∃ name, [line] = ["M " ++ name]) ↔ _
  simp only [List.singleton_inj]

theorem mem_endings : [line] ∈ endings ↔ line = "E" ∨ ∃ rest, line = "E " ++ rest := by
  show ([line] = ["E"] ∨ ∃ rest, [line] = ["E " ++ rest]) ↔ _
  simp only [List.singleton_inj]

theorem said_ending (h : [line] ∈ endings) : said line = .terminator := by
  rcases mem_endings.mp h with rfl | ⟨rest, rfl⟩
  · rfl
  · exact said_annotated

theorem exists_line_of_fillers (h : lines ∈ fillers fingerprint) : ∃ line, lines = [line] := by
  rcases (Language.mem_add _ _ _).mp h with rfl | rfl
  · exact ⟨_, rfl⟩
  · exact ⟨_, rfl⟩

theorem exists_line_of_inside (h : lines ∈ methods + fillers fingerprint) :
    ∃ line, lines = [line] := by
  rcases (Language.mem_add _ _ _).mp h with ⟨name, rfl⟩ | h
  · exact ⟨_, rfl⟩
  · exact exists_line_of_fillers h

theorem exists_line_of_endings (h : lines ∈ endings) : ∃ line, lines = [line] := by
  rcases h with rfl | ⟨rest, rfl⟩
  · exact ⟨_, rfl⟩
  · exact ⟨_, rfl⟩

theorem mem_kstar_lines {l : Language String} (hl : ∀ word ∈ l, ∃ line, word = [line]) :
    lines ∈ l∗ ↔ ∀ line ∈ lines, [line] ∈ l := by
  constructor
  · rintro ⟨words, rfl, hwords⟩ line hline
    obtain ⟨word, hword, hmem⟩ := List.mem_flatten.mp hline
    obtain ⟨line', rfl⟩ := hl word (hwords word hword)
    rw [List.mem_singleton.mp hmem]
    exact hwords _ hword
  · intro h
    refine ⟨lines.map fun line => [line], ?_, ?_⟩
    · induction lines with
      | nil => rfl
      | cons line rest ih =>
        rw [List.map_cons, List.flatten_cons, ← ih (List.forall_mem_cons.mp h).2]
        rfl
    · intro word hword
      obtain ⟨line, hline, rfl⟩ := List.mem_map.mp hword
      exact h line hline

theorem mem_kstar_inside : inner ∈ (methods + fillers fingerprint)∗ ↔
    ∀ line ∈ inner, [line] ∈ methods + fillers fingerprint :=
  mem_kstar_lines fun _ h => exists_line_of_inside h

theorem InBlock.append_line (h : InBlock fingerprint lines type)
    (hline : [line] ∈ methods + fillers fingerprint) :
    InBlock fingerprint (lines ++ [line]) type := by
  obtain ⟨front, inner, rfl, hfront, hinner⟩ := h
  refine ⟨front, inner ++ [line], by simp, hfront, mem_kstar_inside.mpr ?_⟩
  exact List.forall_mem_append.mpr
    ⟨mem_kstar_inside.mp hinner, List.forall_mem_singleton.mpr hline⟩

theorem exists_first_method (hinner : ∀ line ∈ inner, [line] ∈ methods + fillers fingerprint)
    (hname : "M " ++ name ∈ inner) : ∃ front first back, inner = front ++ ("M " ++ first) :: back ∧
      ∀ line ∈ front, [line] ∈ fillers fingerprint := by
  induction inner with
  | nil => cases hname
  | cons line rest ih =>
    obtain ⟨hline, hrest⟩ := List.forall_mem_cons.mp hinner
    rcases (Language.mem_add _ _ _).mp hline with hmethod | hfiller
    · obtain ⟨first, rfl⟩ := mem_methods.mp hmethod
      exact ⟨[], first, rest, rfl, nofun⟩
    · by_cases heq : line = "M " ++ name
      · exact ⟨[], name, rest, by rw [heq]; rfl, nofun⟩
      · obtain ⟨front, first, back, rfl, hfront⟩ :=
          ih hrest ((List.mem_cons.mp hname).resolve_left (Ne.symm heq))
        exact ⟨line :: front, first, back, rfl, List.forall_mem_cons.mpr ⟨hfiller, hfront⟩⟩

theorem mem_blocks : lines ∈ blocks fingerprint ↔ ∃ type inner ending,
    lines = ("T " ++ type) :: inner ++ [ending] ∧
    (∀ line ∈ inner, [line] ∈ methods + fillers fingerprint) ∧ (∃ name, "M " ++ name ∈ inner) ∧
    [ending] ∈ endings := by
  unfold blocks
  constructor
  · intro h
    obtain ⟨_, hnamed, word, hending, rfl⟩ := Language.mem_mul.mp h
    obtain ⟨_, hfirst, back, hback, rfl⟩ := Language.mem_mul.mp hnamed
    obtain ⟨_, hopened, _, ⟨name, rfl⟩, rfl⟩ := Language.mem_mul.mp hfirst
    obtain ⟨_, ⟨type, rfl⟩, front, hfront, rfl⟩ := Language.mem_mul.mp hopened
    obtain ⟨ending, rfl⟩ := exists_line_of_endings hending
    refine ⟨type, front ++ ("M " ++ name) :: back, ending, by simp, ?_, ⟨name, by simp⟩, hending⟩
    rw [mem_kstar_lines fun _ h => exists_line_of_fillers h] at hfront
    refine List.forall_mem_append.mpr ⟨fun line hline => .inr (hfront line hline), ?_⟩
    exact List.forall_mem_cons.mpr ⟨.inl ⟨name, rfl⟩, mem_kstar_inside.mp hback⟩
  · rintro ⟨type, inner, ending, rfl, hinner, ⟨name, hname⟩, hending⟩
    obtain ⟨front, first, back, rfl, hfront⟩ := exists_first_method hinner hname
    obtain ⟨-, hback⟩ := List.forall_mem_append.mp hinner
    have hfront : front ∈ (fillers fingerprint)∗ :=
      (mem_kstar_lines fun _ h => exists_line_of_fillers h).mpr hfront
    have hback : back ∈ (methods + fillers fingerprint)∗ :=
      mem_kstar_inside.mpr (List.forall_mem_cons.mp hback).2
    have hopened : ["T " ++ type] ++ front ∈ openings * (fillers fingerprint)∗ :=
      Language.append_mem_mul ⟨type, rfl⟩ hfront
    have hnamed := Language.append_mem_mul hopened
      (show ["M " ++ first] ∈ methods from ⟨first, rfl⟩)
    have hended := Language.append_mem_mul (Language.append_mem_mul hnamed hback) hending
    simpa using hended

/-! ### Where lines leave the language -/

theorem viable_or_firstViolation (fingerprint : String) (lines : List String) :
    Viable fingerprint lines ∨ ∃ n, FirstViolation fingerprint lines n := by
  induction lines using List.reverseRecOn with
  | nil => exact .inl ⟨[], Language.nil_mem_kstar _⟩
  | append_singleton front line ih =>
    have hlength : (front ++ [line]).length = front.length + 1 := List.length_append
    rcases ih with hviable | ⟨n, hlt, hviable, hnot⟩
    · by_cases hline : Viable fingerprint (front ++ [line])
      · exact .inl hline
      · refine .inr ⟨front.length, by omega, ?_, ?_⟩
        · rwa [List.take_left]
        · rwa [← hlength, List.take_length]
    · refine .inr ⟨n, by omega, ?_, ?_⟩
      · rwa [List.take_append_of_le_length (Nat.le_of_lt hlt)]
      · rwa [List.take_append_of_le_length hlt]

theorem Viable.not_firstViolation (h : Viable fingerprint lines) (n : Nat) :
    ¬ FirstViolation fingerprint lines n := by
  rintro ⟨-, -, hnot⟩
  obtain ⟨rest, hmem⟩ := h
  refine hnot ⟨lines.drop (n + 1) ++ rest, ?_⟩
  rwa [← List.append_assoc, List.take_append_drop]

/-! ### Words block by block -/

def methodNames (lines : List String) : List String :=
  lines.filterMap fun line =>
    match said line with
    | .method name => some name
    | _ => none

theorem mem_methodNames : name ∈ methodNames lines ↔ "M " ++ name ∈ lines := by
  unfold methodNames
  rw [List.mem_filterMap]
  constructor
  · rintro ⟨line, hline, hname⟩
    have hsaid := eq_of_said line
    split at hname
    · rename_i heq
      cases hname
      rw [heq] at hsaid
      exact hsaid ▸ hline
    · cases hname
  · intro h
    exact ⟨_, h, by rw [said_method]⟩

/-- Lines with the blocks in them. -/
inductive Holds (fingerprint : String) : List String → List (String × List String) → Prop where
  | nil : Holds fingerprint [] []
  | filler {line : String} {rest : List String} {entries : List (String × List String)}
      (hline : [line] ∈ fillers fingerprint) (hrest : Holds fingerprint rest entries) :
      Holds fingerprint (line :: rest) entries
  | block {type ending : String} {inner rest : List String}
      {entries : List (String × List String)}
      (hinner : ∀ line ∈ inner, [line] ∈ methods + fillers fingerprint)
      (hnames : methodNames inner ≠ []) (hending : [ending] ∈ endings)
      (hrest : Holds fingerprint rest entries) :
      Holds fingerprint (("T " ++ type) :: inner ++ ending :: rest)
        ((type, methodNames inner) :: entries)

namespace Holds

variable {front back : List String} {entries' : List (String × List String)}

theorem append (h : Holds fingerprint front entries) (h' : Holds fingerprint back entries') :
    Holds fingerprint (front ++ back) (entries ++ entries') := by
  induction h with
  | nil => exact h'
  | filler hline _ ih => exact .filler hline ih
  | @block type ending inner rest entries hinner hnames hending _ ih =>
    have hblock : Holds fingerprint _ ((type, _) :: _) := .block hinner hnames hending ih
    simpa using hblock

theorem mem_texts (h : Holds fingerprint lines entries) : lines ∈ texts fingerprint := by
  have hcons : ∀ {word rest : List String}, word ∈ fillers fingerprint + blocks fingerprint →
      rest ∈ texts fingerprint → word ++ rest ∈ texts fingerprint := fun hword hrest =>
    (mul_kstar_le_kstar : _ * texts fingerprint ≤ texts fingerprint)
      (Language.append_mem_mul hword hrest)
  induction h with
  | nil => exact Language.nil_mem_kstar _
  | filler hline _ ih => exact hcons (.inl hline) ih
  | @block type ending inner rest entries hinner hnames hending _ ih =>
    obtain ⟨name, hname⟩ := List.exists_mem_of_ne_nil _ hnames
    have hblock : ("T " ++ type) :: inner ++ [ending] ∈ blocks fingerprint :=
      mem_blocks.mpr ⟨type, inner, ending, rfl, hinner, ⟨name, mem_methodNames.mp hname⟩, hending⟩
    simpa using hcons (.inr hblock) ih

end Holds

theorem exists_holds_of_mem_texts (h : lines ∈ texts fingerprint) :
    ∃ entries, Holds fingerprint lines entries := by
  obtain ⟨words, rfl, hwords⟩ := h
  induction words with
  | nil => exact ⟨[], .nil⟩
  | cons word words ih =>
    obtain ⟨hword, hrest⟩ := List.forall_mem_cons.mp hwords
    obtain ⟨entries, hentries⟩ := ih hrest
    rcases (Language.mem_add _ _ _).mp hword with hfiller | hblock
    · obtain ⟨line, rfl⟩ := exists_line_of_fillers hfiller
      exact ⟨entries, .filler hfiller hentries⟩
    · obtain ⟨type, inner, ending, rfl, hinner, ⟨name, hname⟩, hending⟩ := mem_blocks.mp hblock
      refine ⟨(type, methodNames inner) :: entries, ?_⟩
      have hnames : methodNames inner ≠ [] := List.ne_nil_of_mem (mem_methodNames.mpr hname)
      have hheld : Holds fingerprint _ ((type, _) :: _) := .block hinner hnames hending hentries
      simpa using hheld

namespace Holds

theorem filled (h : Holds fingerprint lines entries) : ∀ entry ∈ entries, entry.2 ≠ [] := by
  induction h with
  | nil => exact nofun
  | filler _ _ ih => exact ih
  | block _ hnames _ _ ih => exact List.forall_mem_cons.mpr ⟨hnames, ih⟩

theorem lists_of_mem (h : Holds fingerprint lines entries)
    (hpair : (type, name) ∈ PatchRecord.pairsOf entries) : Lists fingerprint lines type name := by
  induction h with
  | nil => exact absurd hpair PatchRecord.not_mem_pairsOf_nil
  | @filler line rest entries hline hrest ih =>
    obtain ⟨front, inner, ending, back, rfl, hfront, hblock, hback, hname⟩ := ih hpair
    obtain ⟨entries', hheld⟩ := exists_holds_of_mem_texts hfront
    exact ⟨line :: front, inner, ending, back, rfl, (Holds.filler hline hheld).mem_texts, hblock,
      hback, hname⟩
  | @block other ending inner rest entries hinner hnames hending hrest ih =>
    rcases PatchRecord.mem_pairsOf_cons.mp hpair with ⟨rfl, hname⟩ | hlater
    · have hname : "M " ++ name ∈ inner := mem_methodNames.mp hname
      refine ⟨[], inner, ending, rest, by simp, Language.nil_mem_kstar _, ?_, hrest.mem_texts,
        hname⟩
      exact mem_blocks.mpr ⟨type, inner, ending, rfl, hinner, ⟨name, hname⟩, hending⟩
    · obtain ⟨front, inner', ending', back, rfl, hfront, hblock, hback, hname⟩ := ih hlater
      obtain ⟨entries', hheld⟩ := exists_holds_of_mem_texts hfront
      have hheld : Holds fingerprint _ ((other, _) :: _) := .block hinner hnames hending hheld
      exact ⟨_, inner', ending', back, by simp, hheld.mem_texts, hblock, hback, hname⟩

theorem exists_of_lists (h : Lists fingerprint lines type name) :
    ∃ entries, Holds fingerprint lines entries ∧ (type, name) ∈ PatchRecord.pairsOf entries := by
  obtain ⟨front, inner, ending, back, rfl, hfront, hblock, hback, hname⟩ := h
  obtain ⟨entries, hheld⟩ := exists_holds_of_mem_texts hfront
  obtain ⟨entries', hheld'⟩ := exists_holds_of_mem_texts hback
  obtain ⟨type', inner', ending', heq, hinner, -, hending⟩ := mem_blocks.mp hblock
  obtain ⟨rfl, hlast⟩ : inner = inner' ∧ [ending] = [ending'] :=
    List.append_inj' (List.cons.inj heq).2 rfl
  rw [← hlast] at hending
  have hname : name ∈ methodNames inner := mem_methodNames.mpr hname
  have hheld'' : Holds fingerprint _ ((type, _) :: _) :=
    .block hinner (List.ne_nil_of_mem hname) hending hheld'
  refine ⟨_, by simpa using hheld.append hheld'', ?_⟩
  unfold PatchRecord.pairsOf
  rw [List.flatMap_append]
  exact List.mem_append_right _ (PatchRecord.mem_pairsOf_cons.mpr (.inl ⟨rfl, hname⟩))

end Holds

end RecordLanguage

end CilWeave
