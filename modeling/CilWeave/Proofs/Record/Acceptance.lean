import CilWeave.Proofs.Record.Language

/-
Which texts are records.

A reader takes in lines as long as they are the start of lines of the language
(`RecordReader.viable_iff_exists_after`), and the block that is open in it is the one the lines
end in (`RecordReader.block_eq_some_iff`). So lines are in the language, or end inside a block, or
there is a first one with which they are the start of no record. Which of these it is, and
whether that first line opens a block inside another one, decides what becomes of a text
(`PatchRecord.ofText_language`).
-/

namespace CilWeave

open scoped Computability

/-! ## Taking in lines -/

namespace RecordReader

open RecordLine (said said_fingerprint said_type said_method said_annotated eq_of_said)
open RecordLanguage
open PatchRecord (addBlocks)

variable {r r' : RecordReader} {n : Nat} {fingerprint type line ending : String}
  {lines inner seen : List String} {entries : List (String × List String)} {fault : RecordFault}
  {record : PatchRecord} {confirmed : Bool}

/-- What a reader is after some more lines, the first of which is the one after `number`. -/
def after (r : RecordReader) (number : Nat) : List String → Except RecordFault RecordReader
  | [] => .ok r
  | line :: rest =>
    match r.step (number + 1) (said line) with
    | .ok r => r.after (number + 1) rest
    | .error fault => .error fault

theorem after_cons_ok (h : r.step (n + 1) (said line) = .ok r') :
    r.after n (line :: lines) = r'.after (n + 1) lines := by
  rw [after]
  simp only [h]

theorem after_cons_error (h : r.step (n + 1) (said line) = .error fault) :
    r.after n (line :: lines) = .error fault := by
  rw [after]
  simp only [h]

theorem after_append_ok {front back : List String} (h : r.after n front = .ok r') :
    r.after n (front ++ back) = r'.after (n + front.length) back := by
  induction front generalizing r n with
  | nil =>
    cases h
    rfl
  | cons line rest ih =>
    rw [after] at h
    cases hstep : r.step (n + 1) (said line) with
    | ok next =>
      simp only [hstep] at h
      rw [List.cons_append, after_cons_ok hstep, ih h, List.length_cons, Nat.add_right_comm,
        Nat.add_assoc]
    | error fault =>
      simp only [hstep] at h
      cases h

theorem after_append_error {front back : List String} (h : r.after n front = .error fault) :
    r.after n (front ++ back) = .error fault := by
  induction front generalizing r n with
  | nil => cases h
  | cons line rest ih =>
    rw [after] at h
    cases hstep : r.step (n + 1) (said line) with
    | ok next =>
      simp only [hstep] at h
      rw [List.cons_append, after_cons_ok hstep, ih h]
    | error other =>
      simp only [hstep] at h
      rw [List.cons_append, after_cons_error hstep, h]

/-- Lines are read by taking them in and then ending. -/
theorem run_eq_after (lines : List String) : ∀ (r : RecordReader) (n : Nat),
    r.run n (lines.map said) =
      match r.after n lines with
      | .ok r => r.finish (n + lines.length)
      | .error fault => .error fault := by
  induction lines with
  | nil => exact fun _ _ => rfl
  | cons line rest ih =>
    intro r n
    rw [List.map_cons, run.eq_2, after]
    cases r.step (n + 1) (said line) with
    | ok next =>
      show next.run (n + 1) (rest.map said) = _
      rw [ih, List.length_cons, Nat.add_right_comm, Nat.add_assoc]
    | error fault => rfl

/-- A line that may stand anywhere is taken in, and confirms the fingerprint if it states it. -/
theorem step_filler (hline : [line] ∈ fillers r.record.fingerprint) :
    r.step n (said line) =
      .ok { r with confirmed := r.confirmed || decide ("X " ++ r.record.fingerprint = line) } := by
  rcases mem_fillers.mp hline with rfl | rfl
  · rw [said_fingerprint]
    simp [step]
  · have hne : "X " ++ r.record.fingerprint ≠ "" := fun h => by
      have := congrArg said h
      rw [said_fingerprint] at this
      cases this
    rw [decide_eq_false hne, Bool.or_false]
    rfl

theorem step_ending (hending : [ending] ∈ endings) (hblock : r.block = some (type, seen))
    (hseen : seen ≠ []) : r.step n (said ending) =
      .ok { r with record := r.record.addAll type seen, block := none } := by
  obtain ⟨name, names, rfl⟩ := List.exists_cons_of_ne_nil hseen
  rw [said_ending hending]
  simp only [step, hblock]

theorem fingerprint_line_ne (h : ∀ text, said line ≠ .fingerprint text) (text : String) :
    "X " ++ text ≠ line := fun heq => h text (heq ▸ said_fingerprint)

/-- The lines inside a block: the methods are kept, and the fingerprint is confirmed if it is
among them. -/
theorem after_inside (hinner : ∀ line ∈ inner, [line] ∈ methods + fillers record.fingerprint) :
    after ⟨record, confirmed, some (type, seen)⟩ n inner =
      .ok ⟨record, confirmed || decide ("X " ++ record.fingerprint ∈ inner),
        some (type, seen ++ methodNames inner)⟩ := by
  induction inner generalizing confirmed n seen with
  | nil => simp [after, methodNames]
  | cons line rest ih =>
    obtain ⟨hline, hrest⟩ := List.forall_mem_cons.mp hinner
    rcases (Language.mem_add _ _ _).mp hline with hmethod | hfiller
    · obtain ⟨name, rfl⟩ := mem_methods.mp hmethod
      have hstep : step ⟨record, confirmed, some (type, seen)⟩ (n + 1) (said ("M " ++ name)) =
          .ok ⟨record, confirmed, some (type, seen ++ [name])⟩ := by
        rw [said_method]
        rfl
      have hne : "X " ++ record.fingerprint ≠ "M " ++ name :=
        fingerprint_line_ne (by simp [said_method]) _
      have hnames : methodNames (("M " ++ name) :: rest) = name :: methodNames rest := by
        simp only [methodNames, List.filterMap_cons, said_method]
      rw [after_cons_ok hstep, ih hrest]
      simp only [hnames, List.append_assoc, List.singleton_append, List.mem_cons, hne, false_or]
    · have hnames : methodNames (line :: rest) = methodNames rest := by
        rcases mem_fillers.mp hfiller with rfl | rfl
        · simp only [methodNames, List.filterMap_cons, said_fingerprint]
        · rfl
      rw [after_cons_ok (step_filler hfiller), ih hrest]
      simp only [hnames, List.mem_cons, Bool.or_assoc, Bool.decide_or]

theorem after_opened (hinner : ∀ line ∈ inner, [line] ∈ methods + fillers record.fingerprint) :
    after ⟨record, confirmed, none⟩ n (("T " ++ type) :: inner) =
      .ok ⟨record, confirmed || decide ("X " ++ record.fingerprint ∈ inner),
        some (type, methodNames inner)⟩ := by
  have hstep : step ⟨record, confirmed, none⟩ (n + 1) (said ("T " ++ type)) =
      .ok ⟨record, confirmed, some (type, [])⟩ := by
    rw [said_type]
    rfl
  rw [after_cons_ok hstep, after_inside hinner, List.nil_append]

/-- The lines of the language: the blocks in them are added to the record. -/
theorem after_holds (h : Holds record.fingerprint lines entries) :
    after ⟨record, confirmed, none⟩ n lines =
      .ok ⟨addBlocks record entries, confirmed || decide ("X " ++ record.fingerprint ∈ lines),
        none⟩ := by
  generalize hfingerprint : record.fingerprint = fingerprint at h ⊢
  induction h generalizing record confirmed n with
  | nil => simp [after, addBlocks]
  | filler hline _ ih =>
    subst hfingerprint
    rw [after_cons_ok (step_filler hline), ih rfl]
    simp only [List.mem_cons, Bool.or_assoc, Bool.decide_or]
  | @block type ending inner rest entries hinner hnames hending _ ih =>
    subst hfingerprint
    have hne : "X " ++ record.fingerprint ≠ "T " ++ type :=
      fingerprint_line_ne (by simp [said_type]) _
    have hne' : "X " ++ record.fingerprint ≠ ending :=
      fingerprint_line_ne (by simp [said_ending hending]) _
    have hrest : after ⟨record.addAll type (methodNames inner),
        confirmed || decide ("X " ++ record.fingerprint ∈ inner), none⟩
        (n + (("T " ++ type) :: inner).length + 1) rest = _ := ih rfl
    rw [after_append_ok (after_opened hinner), after_cons_ok (step_ending hending rfl hnames)]
    refine hrest.trans ?_
    simp only [List.mem_append, List.mem_cons, hne, hne', false_or, Bool.or_assoc, Bool.decide_or]
    rfl

/-! ## Where lines stand -/

theorem start_after_holds (h : Holds fingerprint lines entries) :
    (start fingerprint).after 0 lines =
      .ok ⟨addBlocks (.empty fingerprint) entries, decide ("X " ++ fingerprint ∈ lines), none⟩ := by
  have hafter : after ⟨.empty fingerprint, false, none⟩ 0 lines =
      .ok ⟨addBlocks (.empty fingerprint) entries, false || decide ("X " ++ fingerprint ∈ lines),
        none⟩ := after_holds h
  rwa [Bool.false_or] at hafter

theorem start_after_opened {front : List String} (type : String)
    (h : Holds fingerprint front entries)
    (hinner : inner ∈ (methods + fillers fingerprint)∗) :
    ∃ confirmed, (start fingerprint).after 0 (front ++ ("T " ++ type) :: inner) =
      .ok ⟨addBlocks (.empty fingerprint) entries, confirmed, some (type, methodNames inner)⟩ := by
  have hkept : (addBlocks (.empty fingerprint) entries).fingerprint = fingerprint :=
    PatchRecord.fingerprint_addBlocks
  have hinside : ∀ line ∈ inner,
      [line] ∈ methods + fillers (addBlocks (.empty fingerprint) entries).fingerprint := by
    rw [hkept]
    exact mem_kstar_inside.mp hinner
  rw [after_append_ok (start_after_holds h), after_opened hinside]
  exact ⟨_, rfl⟩

/-- A line that is taken in may stand anywhere, or it opens a block where none is open, or it
names a method in a block or ends a block that names one. -/
theorem step_ok_cases (h : r.step n (said line) = .ok r') :
    [line] ∈ fillers r.record.fingerprint ∨
      (r.block = none ∧ ∃ name, line = "T " ++ name) ∨
      (∃ type seen, r.block = some (type, seen) ∧ ∃ name, line = "M " ++ name) ∨
      ∃ type seen, r.block = some (type, seen) ∧ seen ≠ [] ∧ [line] ∈ endings := by
  have hsaid := eq_of_said line
  cases hline : said line with
  | fingerprint text =>
    rw [hline] at h hsaid
    simp only [step] at h
    split at h
    · rename_i htext
      exact .inl (mem_fillers.mpr (.inl (htext ▸ hsaid)))
    · cases h
  | type name =>
    rw [hline] at h hsaid
    simp only [step] at h
    split at h
    · cases h
    · rename_i hblock
      exact .inr (.inl ⟨hblock, name, hsaid⟩)
  | method name =>
    rw [hline] at h hsaid
    simp only [step] at h
    split at h
    · rename_i hblock
      exact .inr (.inr (.inl ⟨_, _, hblock, name, hsaid⟩))
    · cases h
  | terminator =>
    rw [hline] at h hsaid
    simp only [step] at h
    split at h
    · cases h
    · rename_i hnil hblock
      exact .inr (.inr (.inr ⟨_, _, hblock, hnil, mem_endings.mpr hsaid⟩))
    · cases h
  | blank =>
    rw [hline] at hsaid
    exact .inl (mem_fillers.mpr (.inr hsaid))
  | unknown =>
    rw [hline] at h
    cases h

/-- A line that is not taken in opens a block inside another one, or the lines are no record. -/
theorem step_error_cases (h : r.step n (said line) = .error fault) :
    (∃ type seen name, r.block = some (type, seen) ∧ line = "T " ++ name ∧
      fault = .unterminated n type) ∨ fault = .stale := by
  have hsaid := eq_of_said line
  cases hline : said line with
  | type name =>
    rw [hline] at h hsaid
    simp only [step] at h
    split at h
    · rename_i hblock
      cases h
      exact .inl ⟨_, _, name, hblock, hsaid, rfl⟩
    · cases h
  | blank =>
    rw [hline] at h
    cases h
  | unknown =>
    rw [hline] at h
    cases h
    exact .inr rfl
  | _ =>
    rw [hline] at h
    simp only [step] at h
    refine .inr ?_
    split at h <;> cases h <;> rfl

theorem append_line_of_mem_texts (hlines : lines ∈ texts fingerprint)
    (hafter : (start fingerprint).after 0 lines = .ok r)
    (hstep : r.step n (said line) = .ok r') :
    lines ++ [line] ∈ texts fingerprint ∨ ∃ type, InBlock fingerprint (lines ++ [line]) type := by
  obtain ⟨entries, hheld⟩ := exists_holds_of_mem_texts hlines
  have hkept : (addBlocks (.empty fingerprint) entries).fingerprint = fingerprint :=
    PatchRecord.fingerprint_addBlocks
  rw [start_after_holds hheld] at hafter
  cases hafter
  rcases step_ok_cases hstep with hfiller | ⟨-, name, rfl⟩ | ⟨_, _, hblock, -⟩ | ⟨_, _, hblock, -⟩
  · exact .inl (hheld.append (.filler (hkept ▸ hfiller) .nil)).mem_texts
  · exact .inr ⟨name, lines, [], rfl, hlines, Language.nil_mem_kstar _⟩
  · cases hblock
  · cases hblock

theorem append_line_of_inBlock (hlines : InBlock fingerprint lines type)
    (hafter : (start fingerprint).after 0 lines = .ok r)
    (hstep : r.step n (said line) = .ok r') :
    lines ++ [line] ∈ texts fingerprint ∨ ∃ type, InBlock fingerprint (lines ++ [line]) type := by
  have hstays : [line] ∈ methods + fillers fingerprint →
      InBlock fingerprint (lines ++ [line]) type := hlines.append_line
  obtain ⟨front, inner, rfl, hfront, hinner⟩ := hlines
  obtain ⟨entries, hheld⟩ := exists_holds_of_mem_texts hfront
  have hkept : (addBlocks (.empty fingerprint) entries).fingerprint = fingerprint :=
    PatchRecord.fingerprint_addBlocks
  obtain ⟨confirmed, hopened⟩ := start_after_opened type hheld hinner
  rw [hopened] at hafter
  cases hafter
  rcases step_ok_cases hstep with hfiller | ⟨hblock, -⟩ | ⟨_, _, -, hmethod⟩ |
    ⟨_, _, hblock, hseen, hending⟩
  · exact .inr ⟨type, hstays (.inr (hkept ▸ hfiller))⟩
  · cases hblock
  · exact .inr ⟨type, hstays (.inl (mem_methods.mpr hmethod))⟩
  · cases hblock
    have hblock : Holds fingerprint _ [(type, _)] :=
      .block (mem_kstar_inside.mp hinner) hseen hending .nil
    rw [List.append_assoc]
    exact .inl (hheld.append hblock).mem_texts

theorem mem_texts_or_inBlock (lines : List String) :
    ∀ r, (start fingerprint).after 0 lines = .ok r →
      lines ∈ texts fingerprint ∨ ∃ type, InBlock fingerprint lines type := by
  induction lines using List.reverseRecOn with
  | nil => exact fun _ _ => .inl (Language.nil_mem_kstar _)
  | append_singleton front line ih =>
    intro r h
    cases hfront : (start fingerprint).after 0 front with
    | error fault =>
      rw [after_append_error hfront] at h
      cases h
    | ok r' =>
      rw [after_append_ok hfront] at h
      cases hstep : r'.step (0 + front.length + 1) (said line) with
      | error fault =>
        rw [after_cons_error hstep] at h
        cases h
      | ok next =>
        rcases ih r' hfront with hmem | ⟨type, hin⟩
        · exact append_line_of_mem_texts hmem hfront hstep
        · exact append_line_of_inBlock hin hfront hstep

/-- Lines are taken in exactly if they are the start of lines of the language. -/
theorem viable_iff_exists_after :
    Viable fingerprint lines ↔ ∃ r, (start fingerprint).after 0 lines = .ok r := by
  constructor
  · rintro ⟨rest, hmem⟩
    obtain ⟨entries, hheld⟩ := exists_holds_of_mem_texts hmem
    have hall := start_after_holds hheld
    cases hlines : (start fingerprint).after 0 lines with
    | ok r => exact ⟨r, rfl⟩
    | error fault =>
      rw [after_append_error hlines] at hall
      cases hall
  · rintro ⟨r, h⟩
    rcases mem_texts_or_inBlock lines r h with hmem | ⟨type, front, inner, rfl, hfront, hinner⟩
    · exact ⟨[], by rwa [List.append_nil]⟩
    · -- A method and an end make a block of what is open.
      obtain ⟨entries, hheld⟩ := exists_holds_of_mem_texts hfront
      have hnamed : ∀ line ∈ inner ++ ["M "], [line] ∈ methods + fillers fingerprint :=
        List.forall_mem_append.mpr ⟨mem_kstar_inside.mp hinner,
          List.forall_mem_singleton.mpr (.inl (mem_methods.mpr ⟨"", rfl⟩))⟩
      have hnames : methodNames (inner ++ ["M "]) ≠ [] :=
        List.ne_nil_of_mem (a := "")
          (mem_methodNames.mpr (List.mem_append_right inner (List.mem_singleton.mpr rfl)))
      have hblock : Holds fingerprint _ [(type, _)] :=
        .block hnamed hnames (mem_endings.mpr (.inl rfl)) .nil
      refine ⟨["M ", "E"], ?_⟩
      simpa using (hheld.append hblock).mem_texts

/-- The block that is open is the one the lines end in. -/
theorem block_eq_some_iff (h : (start fingerprint).after 0 lines = .ok r) :
    (∃ seen, r.block = some (type, seen)) ↔ InBlock fingerprint lines type := by
  have hopen : ∀ {type}, InBlock fingerprint lines type → ∃ seen, r.block = some (type, seen) := by
    rintro type ⟨front, inner, rfl, hfront, hinner⟩
    obtain ⟨entries, hheld⟩ := exists_holds_of_mem_texts hfront
    obtain ⟨confirmed, hopened⟩ := start_after_opened type hheld hinner
    rw [hopened] at h
    cases h
    exact ⟨_, rfl⟩
  refine ⟨fun ⟨seen, hblock⟩ => ?_, hopen⟩
  rcases mem_texts_or_inBlock lines r h with hmem | ⟨type', hin⟩
  · obtain ⟨entries, hheld⟩ := exists_holds_of_mem_texts hmem
    rw [start_after_holds hheld] at h
    cases h
    cases hblock
  · obtain ⟨seen', hblock'⟩ := hopen hin
    rw [hblock] at hblock'
    cases hblock'
    exact hin

/-- With the first line that is no continuation of the lines before it a reader faults. -/
theorem exists_fault {n : Nat} (h : FirstViolation fingerprint lines n)
    (hline : lines[n]? = some line) : ∃ r fault,
      (start fingerprint).after 0 (lines.take n) = .ok r ∧
      r.step (n + 1) (said line) = .error fault ∧
      (start fingerprint).after 0 lines = .error fault := by
  obtain ⟨hlt, hviable, hnot⟩ := h
  obtain ⟨r, hr⟩ := viable_iff_exists_after.mp hviable
  have hlength : 0 + (lines.take n).length = n := by
    rw [List.length_take, Nat.zero_add, Nat.min_eq_left (Nat.le_of_lt hlt)]
  obtain rfl : lines[n] = line := List.getElem?_eq_some_iff.mp hline |>.2
  have hsplit : lines = lines.take n ++ lines[n] :: lines.drop (n + 1) := by
    rw [List.getElem_cons_drop, List.take_append_drop]
  cases hstep : r.step (n + 1) (said lines[n]) with
  | ok next =>
    refine absurd (viable_iff_exists_after.mpr ⟨next, ?_⟩) hnot
    rw [List.take_succ_eq_append_getElem hlt, after_append_ok hr, hlength, after_cons_ok hstep]
    rfl
  | error fault =>
    refine ⟨r, fault, hr, hstep, ?_⟩
    rw [hsplit, after_append_ok hr, hlength, after_cons_error hstep]

/-! ## What becomes of lines -/

theorem run_of_holds (h : Holds fingerprint lines entries) :
    (start fingerprint).run 0 (lines.map said) =
      if "X " ++ fingerprint ∈ lines then .ok (addBlocks (.empty fingerprint) entries)
      else .error .stale := by
  rw [run_eq_after, start_after_holds h]
  simp only [finish, decide_eq_true_eq]

theorem run_of_unterminated {number : Nat} (h : Unterminated fingerprint lines number type) :
    (start fingerprint).run 0 (lines.map said) = .error (.unterminated number type) := by
  rw [run_eq_after]
  cases h with
  | @reopened n _ name hfirst hline hblock =>
    obtain ⟨r, fault, hr, hstep, hfault⟩ := exists_fault hfirst hline
    obtain ⟨seen, hopen⟩ := (block_eq_some_iff hr).mpr hblock
    rw [said_type] at hstep
    simp only [step, hopen] at hstep
    cases hstep
    rw [hfault]
  | unended _ hblock =>
    obtain ⟨front, inner, hlines, hfront, hinner⟩ := hblock
    obtain ⟨entries, hheld⟩ := exists_holds_of_mem_texts hfront
    obtain ⟨confirmed, hopened⟩ := start_after_opened type hheld hinner
    rw [← hlines] at hopened
    rw [hopened]
    simp only [finish, Nat.zero_add]

theorem run_of_not (hlines : lines ∉ texts fingerprint)
    (hended : ∀ number type, ¬ Unterminated fingerprint lines number type) :
    (start fingerprint).run 0 (lines.map said) = .error .stale := by
  rcases viable_or_firstViolation fingerprint lines with hviable | ⟨n, hfirst⟩
  · obtain ⟨r, hr⟩ := viable_iff_exists_after.mp hviable
    rcases mem_texts_or_inBlock lines r hr with hmem | ⟨type, hblock⟩
    · exact absurd hmem hlines
    · exact absurd (.unended hviable.not_firstViolation hblock) (hended _ type)
  · have hline := List.getElem?_eq_getElem hfirst.1
    obtain ⟨r, fault, hr, hstep, hfault⟩ := exists_fault hfirst hline
    rw [run_eq_after, hfault]
    rcases step_error_cases hstep with ⟨type, seen, name, hblock, htype, -⟩ | rfl
    · rw [htype] at hline
      exact absurd (.reopened hfirst hline ((block_eq_some_iff hr).mp ⟨seen, hblock⟩))
        (hended _ type)
    · rfl

end RecordReader

/-! ## What becomes of texts -/

namespace PatchRecord

open RecordLanguage
open RecordLine (said)

variable {text source fingerprint : String} {r : PatchRecord} {lines : List String}

/-- The lines of a text, without the carriage returns at their ends. -/
def linesOf (text : String) : List String :=
  (Lines.of text.toList).map fun line => String.ofList (Lines.dropReturns line)

/-- What is recorded by lines that are in the language: the record is for the fingerprint, its types
and their methods are in order, it has no type without a method, and it has the methods that the
blocks name for their types. -/
structure IsOf (r : PatchRecord) (fingerprint : String) (lines : List String) : Prop where
  fingerprint_eq : r.fingerprint = fingerprint
  ordered : r.Ordered
  filled : ∀ entry ∈ r.entries, entry.2 ≠ []
  mem_pairs_iff : ∀ type name, (type, name) ∈ r.pairs ↔ Lists fingerprint lines type name

theorem isOf_addBlocks {entries : List (String × List String)}
    (h : Holds fingerprint lines entries) :
    (addBlocks (.empty fingerprint) entries).IsOf fingerprint lines := by
  have hpairs : ∀ {entries : List (String × List String)} {p : String × String},
      p ∈ (addBlocks (.empty fingerprint) entries).pairs ↔ p ∈ pairsOf entries :=
    mem_pairs_addBlocks.trans (or_iff_left List.not_mem_nil)
  refine ⟨fingerprint_addBlocks, (ordered_empty fingerprint).addBlocks, ?_, fun type name => ?_⟩
  · exact filled_addBlocks (by simp [empty]) h.filled
  · constructor
    · intro hpair
      exact h.lists_of_mem (hpairs.mp hpair)
    · intro hlists
      obtain ⟨entries', h', hpair⟩ := Holds.exists_of_lists hlists
      -- A reader takes the lines in in one way only, so other blocks of them give the same record.
      have hsame :
          addBlocks (.empty fingerprint) entries = addBlocks (.empty fingerprint) entries' :=
        congrArg RecordReader.record (Except.ok.inj
          ((RecordReader.start_after_holds h).symm.trans (RecordReader.start_after_holds h')))
      rw [hsame]
      exact hpairs.mpr hpair

theorem IsOf.unique {r' : PatchRecord} (h : r.IsOf fingerprint lines)
    (h' : r'.IsOf fingerprint lines) : r = r' := by
  refine h.ordered.eq_of_pairs h'.ordered h.filled h'.filled
    (h.fingerprint_eq.trans h'.fingerprint_eq.symm) ?_
  rintro ⟨type, name⟩
  rw [h.mem_pairs_iff, h'.mem_pairs_iff]

theorem ofText_eq (text source fingerprint : String) : ofText text source fingerprint =
    match (RecordReader.start fingerprint).run 0 ((linesOf text).map said) with
    | .ok record => .ok (some record)
    | .error .stale => .ok none
    | .error (.unterminated line type) =>
      .error (.cacheMalformed source line
        ("block of " ++ type ++ " is missing its terminator")) := by
  have hsaid : (linesOf text).map said = (Lines.of text.toList).map RecordLine.ofChars := by
    unfold linesOf
    rw [List.map_map]
    refine List.map_congr_left fun line _ => ?_
    show RecordLine.ofTrimmed (String.ofList _).toList = _
    rw [String.toList_ofList]
    rfl
  rw [hsaid]
  rfl

theorem ofText_of_mem_records (source : String) (h : linesOf text ∈ records fingerprint) :
    ∃ r, r.IsOf fingerprint (linesOf text) ∧ ofText text source fingerprint = .ok (some r) := by
  obtain ⟨hmem, hstated⟩ := h
  obtain ⟨entries, hheld⟩ := exists_holds_of_mem_texts hmem
  refine ⟨_, isOf_addBlocks hheld, ?_⟩
  rw [ofText_eq, RecordReader.run_of_holds hheld, if_pos hstated]

theorem ofText_of_unterminated {number : Nat} {type : String} (source : String)
    (h : Unterminated fingerprint (linesOf text) number type) :
    ofText text source fingerprint =
      .error (.cacheMalformed source number
        ("block of " ++ type ++ " is missing its terminator")) := by
  rw [ofText_eq, RecordReader.run_of_unterminated h]

theorem ofText_of_neither (hrecord : linesOf text ∉ records fingerprint)
    (hended : ∀ number type, ¬ Unterminated fingerprint (linesOf text) number type) :
    ofText text source fingerprint = .ok none := by
  rw [ofText_eq]
  by_cases hmem : linesOf text ∈ texts fingerprint
  · obtain ⟨entries, hheld⟩ := exists_holds_of_mem_texts hmem
    rw [RecordReader.run_of_holds hheld, if_neg fun hstated => hrecord ⟨hmem, hstated⟩]
  · rw [RecordReader.run_of_not hmem hended]

theorem ofText_eq_some_record_iff : ofText text source fingerprint = .ok (some r) ↔
    linesOf text ∈ records fingerprint ∧ r.IsOf fingerprint (linesOf text) := by
  constructor
  · intro h
    by_cases hrecord : linesOf text ∈ records fingerprint
    · obtain ⟨record, hof, hread⟩ := ofText_of_mem_records source hrecord
      rw [hread] at h
      cases h
      exact ⟨hrecord, hof⟩
    by_cases hended : ∃ number type, Unterminated fingerprint (linesOf text) number type
    · obtain ⟨number, type, hun⟩ := hended
      rw [ofText_of_unterminated source hun] at h
      cases h
    · rw [ofText_of_neither hrecord fun number type hun => hended ⟨number, type, hun⟩] at h
      cases h
  · rintro ⟨hrecord, hr⟩
    obtain ⟨record, hof, hread⟩ := ofText_of_mem_records source hrecord
    rw [hread, hr.unique hof]

theorem ofText_eq_error_iff {e : Error} : ofText text source fingerprint = .error e ↔
    ∃ number type, Unterminated fingerprint (linesOf text) number type ∧
      e = .cacheMalformed source number ("block of " ++ type ++ " is missing its terminator") := by
  constructor
  · intro h
    by_cases hended : ∃ number type, Unterminated fingerprint (linesOf text) number type
    · obtain ⟨number, type, hun⟩ := hended
      rw [ofText_of_unterminated source hun] at h
      cases h
      exact ⟨number, type, hun, rfl⟩
    by_cases hrecord : linesOf text ∈ records fingerprint
    · obtain ⟨record, -, hread⟩ := ofText_of_mem_records source hrecord
      rw [hread] at h
      cases h
    · rw [ofText_of_neither hrecord fun number type hun => hended ⟨number, type, hun⟩] at h
      cases h
  · rintro ⟨number, type, hun, rfl⟩
    exact ofText_of_unterminated source hun

theorem ofText_eq_none_iff : ofText text source fingerprint = .ok none ↔
    linesOf text ∉ records fingerprint ∧
      ∀ number type, ¬ Unterminated fingerprint (linesOf text) number type := by
  constructor
  · intro h
    constructor
    · intro hrecord
      obtain ⟨record, -, hread⟩ := ofText_of_mem_records source hrecord
      rw [hread] at h
      cases h
    · intro number type hun
      rw [ofText_of_unterminated source hun] at h
      cases h
  · rintro ⟨hrecord, hended⟩
    exact ofText_of_neither hrecord hended

/-- A text is a record for a fingerprint exactly if its lines are in the language of records, and
the record is the one of those lines. It is an error exactly if a block in it is unterminated,
which the error reports with its line. Every other text is no record. -/
theorem ofText_language (text source fingerprint : String) :
    ((∃ r, ofText text source fingerprint = .ok (some r)) ↔
      linesOf text ∈ records fingerprint) ∧
    (∀ r, ofText text source fingerprint = .ok (some r) ↔
      linesOf text ∈ records fingerprint ∧ r.IsOf fingerprint (linesOf text)) ∧
    (∀ e, ofText text source fingerprint = .error e ↔
      ∃ number type, Unterminated fingerprint (linesOf text) number type ∧
        e = .cacheMalformed source number ("block of " ++ type ++ " is missing its terminator")) ∧
    (ofText text source fingerprint = .ok none ↔
      linesOf text ∉ records fingerprint ∧
        ∀ number type, ¬ Unterminated fingerprint (linesOf text) number type) := by
  refine ⟨⟨?_, ?_⟩, fun r => ofText_eq_some_record_iff, fun e => ofText_eq_error_iff,
    ofText_eq_none_iff⟩
  · rintro ⟨r, hr⟩
    exact (ofText_eq_some_record_iff.mp hr).1
  · intro hrecord
    obtain ⟨record, -, hread⟩ := ofText_of_mem_records source hrecord
    exact ⟨record, hread⟩

/-- Of several problems the first one counts. -/
example : ofText "X f\r\n\nT A\nX f\nM b\n\nT B\nM c\n?\n" "r" "f" =
    .error (.cacheMalformed "r" 7 "block of A is missing its terminator") := by decide +kernel

end PatchRecord

end CilWeave
