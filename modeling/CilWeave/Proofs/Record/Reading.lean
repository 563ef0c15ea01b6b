import Mathlib.Data.List.Infix
import CilWeave.Proofs.Record.Pairs
import CilWeave.Record.Text

/-
Reading the text of a record.

A text is written line by line, and taken apart into the same lines as long as none of them
holds a line feed or ends in a carriage return (`Lines.of_ended_append`). A reader that meets
the lines of a block adds the block to its record (`RecordReader.run_block`), and one that
runs out of lines inside a block ends in a fault (`RecordReader.run_of_open`). Whatever is read
is an ordered record (`PatchRecord.ordered_of_ofText`), and blocks that are in order come back
in their places (`PatchRecord.addBlocks_eq`).
-/

namespace CilWeave

/-! ## Lines -/

namespace Lines

variable {l part rest cut : List Char} {ls : List (List Char)}

/-- A line that is read as it was written: there is no line feed in it and no carriage return
at its end. -/
structure Plain (l : List Char) : Prop where
  lineFeed : '\n' ∉ l
  carriageReturn : l.getLast? ≠ some '\r'

instance (l : List Char) : Decidable (Plain l) :=
  decidable_of_iff ('\n' ∉ l ∧ l.getLast? ≠ some '\r')
    ⟨fun h => ⟨h.1, h.2⟩, fun h => ⟨h.lineFeed, h.carriageReturn⟩⟩

theorem plain_of_not_mem (hfeed : '\n' ∉ l) (hreturn : '\r' ∉ l) : Plain l :=
  ⟨hfeed, fun h => hreturn (List.mem_of_getLast? h)⟩

theorem dropReturn_of_getLast? (h : l.getLast? ≠ some '\r') : dropReturn l = l := by
  unfold dropReturn
  split
  · rename_i rest hreverse
    refine absurd ?_ h
    rw [List.getLast?_eq_head?_reverse, hreverse]
    rfl
  · rfl

theorem dropReturns_of_getLast? (h : l.getLast? ≠ some '\r') : dropReturns l = l := by
  unfold dropReturns
  rw [List.getLast?_eq_head?_reverse] at h
  cases hreverse : l.reverse with
  | nil =>
    rw [List.reverse_eq_nil_iff.mp hreverse]
    rfl
  | cons c cs =>
    rw [hreverse] at h
    have hc : (c == '\r') = false := beq_eq_false_iff_ne.mpr fun heq => h (heq ▸ rfl)
    rw [List.dropWhile_cons_of_neg (by rw [hc]; exact Bool.false_ne_true), ← hreverse,
      List.reverse_reverse]

def ended (ls : List (List Char)) : List Char := ls.flatMap (· ++ ['\n'])

theorem ended_cons (l : List Char) (ls : List (List Char)) :
    ended (l :: ls) = l ++ '\n' :: ended ls := by
  unfold ended
  rw [List.flatMap_cons, List.append_assoc]
  rfl

theorem ended_append (ls ls' : List (List Char)) : ended (ls ++ ls') = ended ls ++ ended ls' :=
  List.flatMap_append

theorem of_line_append (h : Plain l) (rest : List Char) :
    of (l ++ '\n' :: rest) = l :: of rest := by
  unfold of
  rw [Pieces.split_append_cons h.lineFeed]
  obtain ⟨p, ps, hsplit⟩ := List.exists_cons_of_ne_nil (Pieces.split_ne_nil '\n' rest)
  rw [hsplit]
  show dropReturn l :: _ = _
  rw [dropReturn_of_getLast? h.carriageReturn]

/-- Lines that are ended come first, and then the lines of what follows. -/
theorem of_ended_append (h : ∀ l ∈ ls, Plain l) (rest : List Char) :
    of (ended ls ++ rest) = ls ++ of rest := by
  induction ls with
  | nil => rfl
  | cons l ls ih =>
    obtain ⟨hl, hls⟩ := List.forall_mem_cons.mp h
    rw [ended_cons, List.append_assoc, List.cons_append, of_line_append hl, ih hls]
    rfl

theorem of_nil : of [] = [] := rfl

theorem of_part (h : '\n' ∉ part) (hne : part ≠ []) : of part = [part] := by
  unfold of
  rw [Pieces.split_of_not_mem h]
  unfold ofPieces
  rw [List.isEmpty_eq_false_iff.mpr hne]
  rfl

theorem prefix_append_cases {α : Type} {xs ys zs : List α} (h : xs <+: ys ++ zs) :
    xs <+: ys ∨ ∃ rest, xs = ys ++ rest ∧ rest <+: zs := by
  rcases List.prefix_or_prefix_of_prefix h (List.prefix_append ys zs) with hle | ⟨rest, rfl⟩
  · exact .inl hle
  · exact .inr ⟨rest, rfl, (List.prefix_append_right_inj ys).mp h⟩

theorem exists_of_mem_of_prefix (h : ∀ l ∈ ls, Plain l) (hcut : cut <+: ended ls)
    (hl : l ∈ of cut) : ∃ line ∈ ls, l <+: line := by
  induction ls generalizing cut with
  | nil =>
    rw [List.prefix_nil.mp hcut] at hl
    cases hl
  | cons line ls ih =>
    obtain ⟨hline, hls⟩ := List.forall_mem_cons.mp h
    rw [ended_cons] at hcut
    rcases prefix_append_cases hcut with hcut | ⟨rest, rfl, hrest⟩
    · by_cases hne : cut = []
      · rw [hne] at hl
        cases hl
      · rw [of_part (fun hmem => hline.lineFeed (hcut.subset hmem)) hne] at hl
        exact ⟨line, List.mem_cons_self, List.mem_singleton.mp hl ▸ hcut⟩
    · rcases List.prefix_cons_iff.mp hrest with rfl | ⟨later, rfl, hlater⟩
      · rw [List.append_nil] at hl
        by_cases hne : line = []
        · rw [hne] at hl
          cases hl
        · rw [of_part hline.lineFeed hne] at hl
          exact ⟨line, List.mem_cons_self, List.mem_singleton.mp hl ▸ List.prefix_refl line⟩
      · rw [of_line_append hline] at hl
        rcases List.mem_cons.mp hl with rfl | hl
        · exact ⟨l, List.mem_cons_self, List.prefix_refl l⟩
        · obtain ⟨line', hline', hprefix⟩ := ih hls hlater hl
          exact ⟨line', List.mem_cons_of_mem line hline', hprefix⟩

end Lines

/-! ## Texts of records -/

namespace PatchRecord

theorem toList_marked (mark : String) (text : String) :
    (mark ++ text).toList = mark.toList ++ text.toList := String.toList_append

theorem toList_intercalate_append (lines : List String) (hne : lines ≠ []) :
    ("\n".intercalate lines ++ "\n").toList = Lines.ended (lines.map String.toList) := by
  induction lines with
  | nil => exact absurd rfl hne
  | cons line rest ih =>
    rw [List.map_cons, Lines.ended_cons]
    cases rest with
    | nil =>
      rw [String.intercalate_singleton, String.toList_append]
      rfl
    | cons next rest =>
      rw [String.intercalate_cons_cons, String.append_assoc, String.append_assoc,
        String.toList_append, String.toList_append, ih (List.cons_ne_nil next rest)]
      rfl

theorem toList_toText_eq_ended (r : PatchRecord) :
    r.toText.toList = Lines.ended (r.lines.map String.toList) := by
  unfold toText
  rw [toList_intercalate_append]
  unfold lines
  exact List.cons_ne_nil _ _

end PatchRecord

/-! ## The reader -/

namespace RecordLine

open Lines (Plain)

theorem ofChars_type {name : List Char} (h : Plain ('T' :: ' ' :: name)) :
    ofChars ('T' :: ' ' :: name) = .type (String.ofList name) := by
  unfold ofChars
  rw [Lines.dropReturns_of_getLast? h.carriageReturn]
  rfl

theorem ofChars_method {name : List Char} (h : Plain ('M' :: ' ' :: name)) :
    ofChars ('M' :: ' ' :: name) = .method (String.ofList name) := by
  unfold ofChars
  rw [Lines.dropReturns_of_getLast? h.carriageReturn]
  rfl

theorem ofChars_fingerprint {text : List Char} (h : Plain ('X' :: ' ' :: text)) :
    ofChars ('X' :: ' ' :: text) = .fingerprint (String.ofList text) := by
  unfold ofChars
  rw [Lines.dropReturns_of_getLast? h.carriageReturn]
  rfl

theorem ofChars_start_type {part name : List Char} (h : Plain part)
    (hstart : part <+: 'T' :: ' ' :: name) (hne : part ≠ []) :
    ofChars part = .unknown ∨ ∃ type, ofChars part = .type type := by
  obtain ⟨tail, rfl, htail⟩ := (List.prefix_cons_iff.mp hstart).resolve_left hne
  rcases List.prefix_cons_iff.mp htail with rfl | ⟨name', rfl, -⟩
  · exact .inl rfl
  · exact .inr ⟨_, ofChars_type h⟩

theorem ofChars_ne_terminator {l name : List Char} (h : Plain l) (hstart : l <+: 'M' :: name) :
    ofChars l ≠ .terminator := by
  unfold ofChars
  rw [Lines.dropReturns_of_getLast? h.carriageReturn]
  rcases List.prefix_cons_iff.mp hstart with rfl | ⟨tail, rfl, -⟩
  · exact nofun
  · unfold ofTrimmed
    split <;> simp_all

end RecordLine

namespace RecordReader

variable {r : RecordReader} {n : Nat} {type : String} {names : List String}
  {lines rest : List RecordLine}

def blockLines (type : String) (names : List String) : List RecordLine :=
  .type type :: (names.map RecordLine.method ++ [.terminator])

theorem run_methods (names : List String) (rest : List RecordLine) :
    ∀ (r : RecordReader) (n : Nat) (seen : List String), r.block = some (type, seen) →
      r.run n (names.map RecordLine.method ++ rest) =
        { r with block := some (type, seen ++ names) }.run (n + names.length) rest := by
  induction names with
  | nil =>
    intro r n seen hblock
    rw [List.append_nil, ← hblock]
    rfl
  | cons name names ih =>
    intro r n seen hblock
    rw [List.map_cons, List.cons_append, run.eq_2]
    simp only [step, hblock]
    rw [ih _ (n + 1) (seen ++ [name]) rfl]
    simp only [List.append_assoc, List.singleton_append, List.length_cons]
    rw [Nat.add_right_comm, Nat.add_assoc]

/-- A reader that meets a block adds it to its record. -/
theorem run_block (hblock : r.block = none) (hnames : names ≠ []) :
    r.run n (blockLines type names ++ rest) =
      { r with record := r.record.addAll type names }.run (n + (names.length + 2)) rest := by
  unfold blockLines
  rw [List.cons_append, List.append_assoc, run.eq_2]
  simp only [step, hblock]
  rw [run_methods names _ _ _ [] rfl, List.nil_append, List.singleton_append, run.eq_2]
  obtain ⟨name, names, rfl⟩ := List.exists_cons_of_ne_nil hnames
  obtain ⟨record, confirmed, block⟩ := r
  cases hblock
  simp only [step]
  congr 1
  omega

/-- A reader that runs out of lines inside a block ends in a fault. -/
theorem run_of_open : ∀ {lines : List RecordLine} {r : RecordReader} {n : Nat},
    r.block.isSome = true → (∀ line ∈ lines, line ≠ .terminator) →
    ∃ fault, r.run n lines = .error fault
  | [], r, n, hopen, _ => by
    obtain ⟨block, hblock⟩ := Option.isSome_iff_exists.mp hopen
    unfold run finish
    rw [hblock]
    exact ⟨_, rfl⟩
  | line :: rest, r, n, hopen, hlines => by
    obtain ⟨hline, hrest⟩ := List.forall_mem_cons.mp hlines
    obtain ⟨block, hblock⟩ := Option.isSome_iff_exists.mp hopen
    rw [run.eq_2]
    cases line with
    | terminator => exact absurd rfl hline
    | fingerprint text =>
      unfold step
      by_cases htext : text = r.record.fingerprint
      · simp only [if_pos htext]
        exact run_of_open hopen hrest
      · simp only [if_neg htext]
        exact ⟨_, rfl⟩
    | type name =>
      simp only [step, hblock]
      exact ⟨_, rfl⟩
    | method name =>
      simp only [step, hblock]
      exact run_of_open rfl hrest
    | blank => exact run_of_open hopen hrest
    | unknown => exact ⟨_, rfl⟩

theorem ordered_step {r' : RecordReader} {line : RecordLine} (hr : r.record.Ordered)
    (h : r.step n line = .ok r') : r'.record.Ordered := by
  cases line with
  | fingerprint text =>
    simp only [step] at h
    split at h <;> cases h
    exact hr
  | type name =>
    simp only [step] at h
    split at h <;> cases h
    exact hr
  | method name =>
    simp only [step] at h
    split at h <;> cases h
    exact hr
  | terminator =>
    simp only [step] at h
    split at h <;> cases h
    exact hr.addAll _ _
  | blank =>
    cases h
    exact hr
  | unknown => cases h

theorem ordered_run {record : PatchRecord} : ∀ {lines : List RecordLine} {r : RecordReader}
    {n : Nat}, r.record.Ordered → r.run n lines = .ok record → record.Ordered
  | [], r, n, hr, h => by
    unfold run finish at h
    split at h
    · cases h
    · split at h <;> cases h
      exact hr
  | line :: rest, r, n, hr, h => by
    rw [run.eq_2] at h
    split at h
    · rename_i hstep
      exact ordered_run (ordered_step hr hstep) h
    · cases h

end RecordReader

namespace PatchRecord

/-- A record that is read from a text is ordered. -/
theorem ordered_of_ofText {text source fingerprint : String} {record : PatchRecord}
    (h : ofText text source fingerprint = .ok (some record)) : record.Ordered := by
  unfold ofText at h
  simp only at h
  split at h
  · rename_i hrun
    cases h
    exact RecordReader.ordered_run (ordered_empty fingerprint) hrun
  · cases h
  · cases h

end PatchRecord

/-! ## Blocks of an ordered record -/

namespace PatchRecord

variable {r : PatchRecord} {entries : List (String × List String)}

/-- The record with some more blocks, added one after the other. -/
def addBlocks (r : PatchRecord) (entries : List (String × List String)) : PatchRecord :=
  entries.foldl (fun r entry => r.addAll entry.1 entry.2) r

theorem foldl_insertName_ne_nil {names : List String} (h : names ≠ []) (seen : List String) :
    names.foldl (fun names name => insertName name names) seen ≠ [] := by
  obtain ⟨name, hname⟩ := List.exists_mem_of_ne_nil names h
  exact List.ne_nil_of_mem (mem_foldl_insertName.mpr (.inl hname))

theorem filled_insertEntry {type : String} {names : List String} (hnames : names ≠ [])
    (h : ∀ entry ∈ entries, entry.2 ≠ []) :
    ∀ entry ∈ insertEntry type names entries, entry.2 ≠ [] := by
  induction entries with
  | nil => exact List.forall_mem_singleton.mpr (foldl_insertName_ne_nil hnames [])
  | cons entry rest ih =>
    obtain ⟨other, others⟩ := entry
    obtain ⟨hfirst, hrest⟩ := List.forall_mem_cons.mp h
    unfold insertEntry
    split
    · exact List.forall_mem_cons.mpr ⟨foldl_insertName_ne_nil hnames others, hrest⟩
    · split
      · exact List.forall_mem_cons.mpr ⟨foldl_insertName_ne_nil hnames [], h⟩
      · exact List.forall_mem_cons.mpr ⟨hfirst, ih hrest⟩

theorem fingerprint_addEach {r : PatchRecord} (added : List (String × String)) :
    (r.addEach added).fingerprint = r.fingerprint := by
  induction added generalizing r with
  | nil => rfl
  | cons p rest ih => exact ih (r := r.add p.1 p.2)

theorem filled_addEach {r : PatchRecord} (h : ∀ entry ∈ r.entries, entry.2 ≠ []) :
    ∀ added : List (String × String), ∀ entry ∈ (r.addEach added).entries, entry.2 ≠ [] := by
  intro added
  induction added generalizing r with
  | nil => exact h
  | cons p rest ih => exact ih (r := r.add p.1 p.2) (filled_insertEntry (List.cons_ne_nil _ _) h)

theorem fingerprint_addBlocks {r : PatchRecord} :
    (r.addBlocks entries).fingerprint = r.fingerprint := by
  induction entries generalizing r with
  | nil => rfl
  | cons entry rest ih => exact ih (r := r.addAll entry.1 entry.2)

theorem mem_pairs_addBlocks {r : PatchRecord} {p : String × String} :
    p ∈ (r.addBlocks entries).pairs ↔ p ∈ pairsOf entries ∨ p ∈ r.pairs := by
  induction entries generalizing r with
  | nil => exact (or_iff_right List.not_mem_nil).symm
  | cons entry rest ih =>
    have ih : p ∈ ((r.addAll entry.1 entry.2).addBlocks rest).pairs ↔ _ := ih
    show p ∈ ((r.addAll entry.1 entry.2).addBlocks rest).pairs ↔ _
    rw [ih, mem_pairs_addAll, mem_pairsOf_cons]
    exact or_left_comm.trans or_assoc.symm

theorem Ordered.addBlocks {r : PatchRecord} (h : r.Ordered) : (r.addBlocks entries).Ordered := by
  induction entries generalizing r with
  | nil => exact h
  | cons entry rest ih => exact ih (h.addAll entry.1 entry.2)

theorem filled_addBlocks {r : PatchRecord} (hr : ∀ entry ∈ r.entries, entry.2 ≠ [])
    (h : ∀ entry ∈ entries, entry.2 ≠ []) :
    ∀ entry ∈ (r.addBlocks entries).entries, entry.2 ≠ [] := by
  induction entries generalizing r with
  | nil => exact hr
  | cons entry rest ih =>
    obtain ⟨hentry, hrest⟩ := List.forall_mem_cons.mp h
    exact ih (r := r.addAll entry.1 entry.2) (filled_insertEntry hentry hr) hrest

theorem insertName_of_lt {name : String} {names : List String} (h : ∀ other ∈ names, other < name) :
    insertName name names = names ++ [name] := by
  induction names with
  | nil => rfl
  | cons other rest ih =>
    obtain ⟨hother, hrest⟩ := List.forall_mem_cons.mp h
    unfold insertName
    rw [if_neg (ne_of_gt hother), if_neg (lt_asymm hother), ih hrest]
    rfl

theorem foldl_insertName {names seen : List String} (h : (seen ++ names).Pairwise (· < ·)) :
    names.foldl (fun names name => insertName name names) seen = seen ++ names := by
  induction names generalizing seen with
  | nil => exact (List.append_nil seen).symm
  | cons name names ih =>
    have hlt : ∀ other ∈ seen, other < name := fun other hother =>
      (List.pairwise_append.mp h).2.2 other hother name List.mem_cons_self
    rw [List.foldl_cons, insertName_of_lt hlt, ih (by rwa [List.append_assoc]), List.append_assoc]
    rfl

theorem insertEntry_of_lt {type : String} {names : List String} (hnames : names.Pairwise (· < ·))
    (h : ∀ other ∈ entries.map Prod.fst, other < type) :
    insertEntry type names entries = entries ++ [(type, names)] := by
  induction entries with
  | nil =>
    unfold insertEntry
    rw [foldl_insertName (by exact hnames)]
    rfl
  | cons entry rest ih =>
    obtain ⟨other, others⟩ := entry
    obtain ⟨hother, hrest⟩ := List.forall_mem_cons.mp h
    unfold insertEntry
    rw [if_neg (ne_of_gt hother), if_neg (lt_asymm hother), ih hrest]
    rfl

theorem addBlocks_eq {entries seen : List (String × List String)} {fingerprint : String}
    (htypes : ((seen ++ entries).map Prod.fst).Pairwise (· < ·))
    (hnames : ∀ entry ∈ entries, entry.2.Pairwise (· < ·)) :
    addBlocks ⟨fingerprint, seen⟩ entries = ⟨fingerprint, seen ++ entries⟩ := by
  induction entries generalizing seen with
  | nil =>
    rw [List.append_nil]
    rfl
  | cons entry entries ih =>
    obtain ⟨hentry, hrest⟩ := List.forall_mem_cons.mp hnames
    have hlt : ∀ other ∈ seen.map Prod.fst, other < entry.1 := by
      rw [List.map_append, List.map_cons] at htypes
      exact fun other hother =>
        (List.pairwise_append.mp htypes).2.2 other hother entry.1 List.mem_cons_self
    have hadd : addAll ⟨fingerprint, seen⟩ entry.1 entry.2 =
        ⟨fingerprint, seen ++ [entry]⟩ := by
      unfold addAll
      rw [insertEntry_of_lt hentry hlt]
    unfold addBlocks at ih ⊢
    rw [List.foldl_cons, hadd, ih (by rwa [List.append_assoc]) hrest, List.append_assoc]
    rfl

end PatchRecord

end CilWeave
