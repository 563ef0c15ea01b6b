import CilWeave.Proofs.Record.Reading

/-
The text of a record that breaks off.

Whoever writes a record may be interrupted, and then only the start of its text is there. A
text that breaks off inside a block is never taken for a record: either the last line says
nothing, or the block is open at the end (`RecordReader.read_cut_entry`). But nothing says how
many blocks there are to be, so a text that breaks off between two blocks is the text of a
smaller record and is read as that (`PatchRecord.read_of_prefix`): what a run then follows
lacks methods that were recorded.
-/

namespace CilWeave

open Lines (Plain)

namespace PatchRecord

variable {fingerprint source : String} {entry : String × List String}
  {entries : List (String × List String)} {cut : List Char}

/-! ## Texts of records -/

/-- A text on one line. -/
structure OneLine (text : String) : Prop where
  lineFeed : '\n' ∉ text.toList
  carriageReturn : '\r' ∉ text.toList

instance (text : String) : Decidable (OneLine text) :=
  decidable_of_iff ('\n' ∉ text.toList ∧ '\r' ∉ text.toList)
    ⟨fun h => ⟨h.1, h.2⟩, fun h => ⟨h.lineFeed, h.carriageReturn⟩⟩

/-- The block of a type can be told from its text. -/
structure Legible (entry : String × List String) : Prop where
  type : OneLine entry.1
  names : ∀ name ∈ entry.2, OneLine name
  nonempty : entry.2 ≠ []

def entryText (entry : String × List String) : List Char :=
  Lines.ended ((entryLines entry).map String.toList)

def entriesText (entries : List (String × List String)) : List Char := entries.flatMap entryText

theorem OneLine.plain {text : String} {mark : Char} {part : List Char} (h : OneLine text)
    (hfeed : mark ≠ '\n') (hreturn : mark ≠ '\r') (hpart : part <+: mark :: ' ' :: text.toList) :
    Plain part := by
  refine Lines.plain_of_not_mem (fun hmem => ?_) fun hmem => ?_
  · rcases List.mem_cons.mp (hpart.subset hmem) with heq | hmem
    · exact hfeed heq.symm
    · rcases List.mem_cons.mp hmem with heq | hmem
      · exact absurd heq (by decide)
      · exact h.lineFeed hmem
  · rcases List.mem_cons.mp (hpart.subset hmem) with heq | hmem
    · exact hreturn heq.symm
    · rcases List.mem_cons.mp hmem with heq | hmem
      · exact absurd heq (by decide)
      · exact h.carriageReturn hmem

theorem entryLines_toList (entry : String × List String) :
    (entryLines entry).map String.toList = ('T' :: ' ' :: entry.1.toList) ::
      (entry.2.map (fun name => 'M' :: ' ' :: name.toList) ++ [['E']]) := by
  unfold entryLines
  rw [List.map_append, List.map_append, List.map_map, List.append_assoc]
  have hmethods : (String.toList ∘ ("M " ++ ·)) = fun name => 'M' :: ' ' :: name.toList :=
    funext fun name => toList_marked "M " name
  have htype : ["T " ++ entry.1].map String.toList = ['T' :: ' ' :: entry.1.toList] :=
    congrArg (fun line => [line]) (toList_marked "T " entry.1)
  rw [hmethods, htype]
  rfl

theorem entryText_eq (entry : String × List String) :
    entryText entry = ('T' :: ' ' :: entry.1.toList) ++ '\n' ::
      (Lines.ended (entry.2.map fun name => 'M' :: ' ' :: name.toList) ++ ['E', '\n']) := by
  unfold entryText
  rw [entryLines_toList, Lines.ended_cons, Lines.ended_append]
  rfl

theorem exists_ended_entryText (entry : String × List String) :
    ∃ part, entryText entry = part ++ ['\n'] := by
  rw [entryText_eq]
  exact ⟨('T' :: ' ' :: entry.1.toList) ++ '\n' ::
    (Lines.ended (entry.2.map fun name => 'M' :: ' ' :: name.toList) ++ ['E']), by simp⟩

theorem Legible.plain_lines (h : Legible entry) :
    ∀ line ∈ (entryLines entry).map String.toList, Plain line := by
  rw [entryLines_toList]
  refine List.forall_mem_cons.mpr
    ⟨h.type.plain (by decide) (by decide) (List.prefix_refl _), fun line hline => ?_⟩
  rcases List.mem_append.mp hline with hline | hline
  · obtain ⟨name, hname, rfl⟩ := List.mem_map.mp hline
    exact (h.names name hname).plain (by decide) (by decide) (List.prefix_refl _)
  · rw [List.mem_singleton.mp hline]
    exact Lines.plain_of_not_mem (by decide) (by decide)

theorem Legible.plain_methods (h : Legible entry) :
    ∀ line ∈ entry.2.map (fun name => 'M' :: ' ' :: name.toList), Plain line := by
  have hlines := h.plain_lines
  rw [entryLines_toList] at hlines
  exact fun line hline => hlines line (List.mem_cons_of_mem _ (List.mem_append_left _ hline))

theorem Legible.ofChars_lines (h : Legible entry) :
    ((entryLines entry).map String.toList).map RecordLine.ofChars =
      RecordReader.blockLines entry.1 entry.2 := by
  have hlines := h.plain_lines
  rw [entryLines_toList] at hlines ⊢
  unfold RecordReader.blockLines
  obtain ⟨htype, hrest⟩ := List.forall_mem_cons.mp hlines
  rw [List.map_cons, RecordLine.ofChars_type htype, String.ofList_toList, List.map_append,
    List.map_map]
  have hmethods : entry.2.map (RecordLine.ofChars ∘ fun name => 'M' :: ' ' :: name.toList) =
      entry.2.map RecordLine.method := by
    refine List.map_congr_left fun name hname => ?_
    have hplain := hrest _ (List.mem_append_left _ (List.mem_map_of_mem hname))
    show RecordLine.ofChars _ = _
    rw [RecordLine.ofChars_method hplain, String.ofList_toList]
  rw [hmethods]
  rfl

end PatchRecord

/-! ## Reading blocks that break off -/

namespace RecordReader

open PatchRecord (Legible entryText entriesText addBlocks entryLines)

variable {r : RecordReader} {n : Nat} {entry : String × List String}
  {entries : List (String × List String)} {cut : List Char} {record : PatchRecord}

def read (r : RecordReader) (n : Nat) (text : List Char) : Except RecordFault PatchRecord :=
  r.run n ((Lines.of text).map RecordLine.ofChars)

theorem read_entryText (h : Legible entry) (hblock : r.block = none) (rest : List Char) :
    r.read n (entryText entry ++ rest) =
      { r with record := r.record.addAll entry.1 entry.2 }.read (n + (entry.2.length + 2))
        rest := by
  unfold read entryText
  rw [Lines.of_ended_append h.plain_lines, List.map_append, h.ofChars_lines,
    run_block hblock h.nonempty]

theorem read_of_ended_eq (h : Legible entry) (hcut : cut ++ ['\n'] = entryText entry) :
    r.read n cut = r.read n (entryText entry) := by
  have hlines : (entryLines entry).map String.toList =
      (('T' :: ' ' :: entry.1.toList) :: entry.2.map fun name => 'M' :: ' ' :: name.toList) ++
        [['E']] := by
    rw [PatchRecord.entryLines_toList]
    rfl
  have hplain := h.plain_lines
  unfold entryText at hcut ⊢
  rw [hlines] at hplain hcut ⊢
  have hinit := fun line hline => hplain line (List.mem_append_left _ hline)
  rw [Lines.ended_append] at hcut
  have hcut' : cut = Lines.ended (('T' :: ' ' :: entry.1.toList) ::
      entry.2.map fun name => 'M' :: ' ' :: name.toList) ++ ['E'] :=
    List.append_cancel_right (hcut.trans (List.append_assoc _ ['E'] ['\n']).symm)
  unfold read
  rw [hcut', Lines.ended_append, Lines.of_ended_append hinit, Lines.of_ended_append hinit]
  rfl

/-- Of a block that breaks off nothing is read unless all of it is missing, or only the end of
its last line. -/
theorem read_cut_entry (h : Legible entry) (hblock : r.block = none)
    (hcut : cut <+: entryText entry) (hnil : cut ≠ []) (hlast : cut ++ ['\n'] ≠ entryText entry)
    (hwhole : cut ≠ entryText entry) : ∃ fault, r.read n cut = .error fault := by
  rw [PatchRecord.entryText_eq] at hcut hlast hwhole
  unfold read
  rcases Lines.prefix_append_cases hcut with hcut | ⟨rest, rfl, hrest⟩
  · -- The line that opens the block is not ended.
    have hline := h.type.plain (by decide) (by decide) hcut
    rw [Lines.of_part hline.lineFeed hnil, List.map_singleton, run.eq_2]
    rcases RecordLine.ofChars_start_type hline hcut hnil with hmeans | ⟨type, hmeans⟩
    · rw [hmeans]
      exact ⟨_, rfl⟩
    · simp only [hmeans, step, hblock]
      exact ⟨_, rfl⟩
  have htype := h.type.plain (by decide) (by decide) (List.prefix_refl ('T' :: ' ' :: _))
  rcases List.prefix_cons_iff.mp hrest with rfl | ⟨later, rfl, hlater⟩
  · rw [List.append_nil, Lines.of_part htype.lineFeed (List.cons_ne_nil _ _), List.map_singleton,
      run.eq_2, RecordLine.ofChars_type htype]
    simp only [step, hblock]
    exact ⟨_, rfl⟩
  -- The block is open, and no line that follows ends it.
  rw [Lines.of_line_append htype, List.map_cons, RecordLine.ofChars_type htype, run.eq_2]
  simp only [step, hblock]
  refine run_of_open rfl fun line hline => ?_
  obtain ⟨l, hl, rfl⟩ := List.mem_map.mp hline
  have hmethods := h.plain_methods
  have hstart : ∃ line ∈ entry.2.map (fun name => 'M' :: ' ' :: name.toList), l <+: line := by
    rcases Lines.prefix_append_cases hlater with hlater | ⟨last, rfl, hend⟩
    · exact Lines.exists_of_mem_of_prefix hmethods hlater hl
    · -- As much of the last line as can be there without the whole of it is nothing.
      rcases List.prefix_cons_iff.mp hend with rfl | ⟨end', rfl, hend'⟩
      · rw [List.append_nil] at hl
        exact Lines.exists_of_mem_of_prefix hmethods (List.prefix_refl _) hl
      · rcases List.prefix_cons_iff.mp hend' with rfl | ⟨end'', rfl, hend''⟩
        · simp at hlast
        · rw [List.prefix_nil.mp hend''] at hwhole
          exact absurd rfl hwhole
  obtain ⟨_, hmem, hprefix⟩ := hstart
  obtain ⟨name, hname, rfl⟩ := List.mem_map.mp hmem
  exact RecordLine.ofChars_ne_terminator
    ((h.names name hname).plain (by decide) (by decide) hprefix) hprefix

theorem read_entriesText_append (rest : List Char) : ∀ {entries : List (String × List String)}
    {r : RecordReader} {n : Nat}, (∀ entry ∈ entries, Legible entry) → r.block = none →
    ∃ n', r.read n (entriesText entries ++ rest) =
      { r with record := addBlocks r.record entries }.read n' rest
  | [], r, n, _, _ => ⟨n, rfl⟩
  | entry :: later, r, n, hentries, hblock => by
    obtain ⟨hentry, hlater⟩ := List.forall_mem_cons.mp hentries
    obtain ⟨n', hread⟩ := read_entriesText_append rest (n := n + (entry.2.length + 2))
      (r := { r with record := r.record.addAll entry.1 entry.2 }) hlater hblock
    refine ⟨n', ?_⟩
    unfold entriesText at hread ⊢
    rw [List.flatMap_cons, List.append_assoc, read_entryText hentry hblock, hread]
    rfl

theorem read_nil (hblock : r.block = none) (hconfirmed : r.confirmed = true) :
    r.read n [] = .ok r.record := by
  unfold read run finish
  simp only [Lines.of_nil, List.map_nil, hblock, if_pos hconfirmed]

/-- Blocks are read, whether or not the last line of them is ended. -/
theorem read_entriesText (hentries : ∀ entry ∈ entries, Legible entry) (hblock : r.block = none)
    (hconfirmed : r.confirmed = true)
    (hcut : cut = entriesText entries ∨ cut ++ ['\n'] = entriesText entries) :
    r.read n cut = .ok (addBlocks r.record entries) := by
  rcases hcut with rfl | hcut
  · obtain ⟨n', hread⟩ := read_entriesText_append (n := n) [] hentries hblock
    rw [List.append_nil] at hread
    rw [hread]
    exact read_nil hblock hconfirmed
  rcases List.eq_nil_or_concat' entries with rfl | ⟨first, last, rfl⟩
  · exact absurd hcut (by simp [entriesText])
  obtain ⟨hfirst, hlast⟩ := List.forall_mem_append.mp hentries
  have hlegible : Legible last := hlast last (List.mem_singleton.mpr rfl)
  -- The text without its last line feed has the last block without it.
  obtain ⟨part, hpart⟩ := PatchRecord.exists_ended_entryText last
  have htext : entriesText (first ++ [last]) = entriesText first ++ entryText last := by
    unfold entriesText
    rw [List.flatMap_append, List.flatMap_singleton]
  rw [htext, hpart, ← List.append_assoc] at hcut
  rw [List.append_cancel_right hcut]
  obtain ⟨n', hread⟩ := read_entriesText_append (n := n) part hfirst hblock
  rw [hread, read_of_ended_eq hlegible hpart.symm, ← List.append_nil (entryText last)]
  refine (read_entryText (r := { r with record := addBlocks r.record first }) hlegible hblock
    []).trans ((read_nil (by exact hblock) (by exact hconfirmed)).trans ?_)
  unfold addBlocks
  rw [List.foldl_append]
  rfl

/-- Of blocks that break off, something is read only if they break off between two of them. -/
theorem exists_take_of_read_ok : ∀ {entries : List (String × List String)} {cut : List Char}
    {r : RecordReader} {n : Nat}, (∀ entry ∈ entries, Legible entry) → r.block = none →
    cut <+: entriesText entries → r.read n cut = .ok record → ∃ k ≤ entries.length,
      cut = entriesText (entries.take k) ∨ cut ++ ['\n'] = entriesText (entries.take k)
  | [], cut, r, n, _, _, hcut, _ => ⟨0, Nat.le_refl 0, .inl (List.prefix_nil.mp hcut)⟩
  | entry :: rest, cut, r, n, hentries, hblock, hcut, hread => by
    obtain ⟨hentry, hrest⟩ := List.forall_mem_cons.mp hentries
    rcases Lines.prefix_append_cases hcut with hcut | ⟨later, rfl, hlater⟩
    · have hone : entriesText ((entry :: rest).take 1) = entryText entry := List.append_nil _
      by_cases hnil : cut = []
      · exact ⟨0, Nat.zero_le _, .inl hnil⟩
      by_cases hlast : cut ++ ['\n'] = entryText entry
      · exact ⟨1, by simp, .inr (hlast.trans hone.symm)⟩
      by_cases hwhole : cut = entryText entry
      · exact ⟨1, by simp, .inl (hwhole.trans hone.symm)⟩
      obtain ⟨fault, hfault⟩ := read_cut_entry (n := n) hentry hblock hcut hnil hlast hwhole
      rw [hfault] at hread
      cases hread
    · rw [read_entryText hentry hblock] at hread
      obtain ⟨k, hk, hcut⟩ := exists_take_of_read_ok
        (r := { r with record := r.record.addAll entry.1 entry.2 }) hrest hblock hlater hread
      refine ⟨k + 1, Nat.succ_le_succ hk, ?_⟩
      have htake : entriesText ((entry :: rest).take (k + 1)) =
          entryText entry ++ entriesText (rest.take k) := rfl
      rw [htake, List.append_assoc, List.append_cancel_left_eq, List.append_cancel_left_eq]
      exact hcut

end RecordReader

/-! ## Reading records that break off -/

namespace PatchRecord

variable {whole r : PatchRecord} {added : List (String × String)} {fingerprint source : String}
  {entries : List (String × List String)} {cut later : List Char}

/-- A record as far as its first types go. -/
def firstTypes (r : PatchRecord) (k : Nat) : PatchRecord := { r with entries := r.entries.take k }

theorem toList_toText (r : PatchRecord) : r.toText.toList =
    ('X' :: ' ' :: r.fingerprint.toList) ++ '\n' :: entriesText r.entries := by
  rw [toList_toText_eq_ended]
  unfold lines
  rw [List.singleton_append, List.map_cons, Lines.ended_cons, toList_marked, List.map_flatMap]
  refine congrArg (fun blocks => 'X' :: ' ' :: r.fingerprint.toList ++ '\n' :: blocks) ?_
  unfold Lines.ended entriesText
  rw [List.flatMap_assoc]
  rfl

theorem ofText_eq_some_iff {text : String} : ofText text source fingerprint = .ok (some r) ↔
    (RecordReader.start fingerprint).read 0 text.toList = .ok r := by
  unfold ofText RecordReader.read
  simp only
  split
  · rename_i record hrun
    rw [hrun]
    exact ⟨fun h => by cases h; rfl, fun h => by cases h; rfl⟩
  · rename_i hrun
    rw [hrun]
    exact ⟨nofun, nofun⟩
  · rename_i hrun
    rw [hrun]
    exact ⟨nofun, nofun⟩

theorem read_fingerprint_append (h : OneLine fingerprint) :
    (RecordReader.start fingerprint).read 0 (('X' :: ' ' :: fingerprint.toList) ++ '\n' :: later) =
      RecordReader.read ⟨empty fingerprint, true, none⟩ 1 later := by
  have hline := h.plain (by decide) (by decide) (List.prefix_refl ('X' :: ' ' :: _))
  unfold RecordReader.read
  rw [Lines.of_line_append hline, List.map_cons, RecordLine.ofChars_fingerprint hline,
    RecordReader.run.eq_2]
  unfold RecordReader.step RecordReader.start empty
  simp only [String.ofList_toList, if_true]

theorem read_fingerprint (h : OneLine fingerprint)
    (hcut : cut <+: 'X' :: ' ' :: fingerprint.toList) :
    (RecordReader.start fingerprint).read 0 cut = .ok r ↔
      cut = 'X' :: ' ' :: fingerprint.toList ∧ r = empty fingerprint := by
  have hline := h.plain (by decide) (by decide) hcut
  rcases List.prefix_cons_iff.mp hcut with rfl | ⟨tail, rfl, htail⟩
  · constructor
    · intro hread
      cases hread
    · rintro ⟨heq, -⟩
      cases heq
  unfold RecordReader.read
  rw [Lines.of_part hline.lineFeed (List.cons_ne_nil _ _), List.map_singleton,
    RecordReader.run.eq_2]
  rcases List.prefix_cons_iff.mp htail with rfl | ⟨stated, rfl, -⟩
  · constructor
    · intro hread
      cases hread
    · rintro ⟨heq, -⟩
      cases heq
  rw [RecordLine.ofChars_fingerprint hline]
  by_cases hstated : String.ofList stated = fingerprint
  · subst hstated
    have hstep : (RecordReader.start (String.ofList stated)).step 1
        (.fingerprint (String.ofList stated)) =
          .ok ⟨empty (String.ofList stated), true, none⟩ := if_pos rfl
    rw [hstep, String.toList_ofList]
    exact ⟨fun hread => ⟨rfl, (Except.ok.inj hread).symm⟩, fun hread => by rw [hread.2]; rfl⟩
  · have hstep : (RecordReader.start fingerprint).step 1 (.fingerprint (String.ofList stated)) =
        .error .stale := if_neg hstated
    rw [hstep]
    constructor
    · intro hread
      cases hread
    · rintro ⟨heq, -⟩
      refine absurd ?_ hstated
      rw [List.tail_eq_of_cons_eq (List.tail_eq_of_cons_eq heq), String.ofList_toList]

theorem legible_addEach (hnames : ∀ p ∈ added, OneLine p.1 ∧ OneLine p.2) :
    ∀ entry ∈ ((empty fingerprint).addEach added).entries, Legible entry := by
  intro entry hentry
  have hfilled : entry.2 ≠ [] := filled_addEach (by simp [empty]) added entry hentry
  have hadded : ∀ name ∈ entry.2, (entry.1, name) ∈ added := by
    intro name hname
    have hpair : (entry.1, name) ∈ ((empty fingerprint).addEach added).pairs :=
      List.mem_flatMap.mpr ⟨entry, hentry, List.mem_map_of_mem hname⟩
    exact (mem_pairs_addEach.mp hpair).resolve_right List.not_mem_nil
  obtain ⟨name, hname⟩ := List.exists_mem_of_ne_nil _ hfilled
  exact ⟨(hnames _ (hadded name hname)).1, fun name hname => (hnames _ (hadded name hname)).2,
    hfilled⟩

theorem eq_of_prefix_fingerprint (h : OneLine fingerprint)
    (hcut : cut <+: 'X' :: ' ' :: fingerprint.toList)
    (hends : cut = ('X' :: ' ' :: fingerprint.toList) ++ '\n' :: entriesText entries ∨
      cut ++ ['\n'] = ('X' :: ' ' :: fingerprint.toList) ++ '\n' :: entriesText entries) :
    cut = 'X' :: ' ' :: fingerprint.toList ∧ entries = [] := by
  rcases hends with rfl | hends
  · refine absurd ?_ (h.plain (by decide) (by decide) hcut).lineFeed
    exact List.mem_append_right _ List.mem_cons_self
  · obtain ⟨rest, hrest⟩ := hcut
    have hlength := congrArg List.length hends
    rw [← hrest] at hlength
    simp only [List.length_append, List.length_cons, List.length_nil] at hlength
    have hnil : rest = [] := List.eq_nil_of_length_eq_zero (by omega)
    have hblocks : entriesText entries = [] := List.eq_nil_of_length_eq_zero (by omega)
    rw [hnil, List.append_nil] at hrest
    refine ⟨hrest, ?_⟩
    cases entries with
    | nil => rfl
    | cons entry rest => simp [entriesText, entryText_eq] at hblocks

theorem addBlocks_take (hordered : whole.Ordered) (k : Nat) :
    addBlocks (empty whole.fingerprint) (whole.entries.take k) = whole.firstTypes k := by
  refine addBlocks_eq ?_ fun entry hentry => hordered.names entry (List.mem_of_mem_take hentry)
  rw [List.nil_append, List.map_take]
  exact hordered.types.sublist (List.take_sublist k _)

/-- Of the text of a record that breaks off, a record is read exactly if it breaks off behind the
line of the fingerprint or behind a block, be it in front of the line feed or behind it; and what
is read are the blocks that are there. -/
theorem read_of_prefix (hordered : whole.Ordered) (hfingerprint : OneLine whole.fingerprint)
    (hlegible : ∀ entry ∈ whole.entries, Legible entry) (hcut : cut <+: whole.toText.toList) :
    (RecordReader.start whole.fingerprint).read 0 cut = .ok r ↔
      ∃ k ≤ whole.entries.length, r = whole.firstTypes k ∧
        (cut = r.toText.toList ∨ cut ++ ['\n'] = r.toText.toList) := by
  have htext : ∀ k, (whole.firstTypes k).toText.toList = ('X' :: ' ' :: whole.fingerprint.toList) ++
      '\n' :: entriesText (whole.entries.take k) := fun k => toList_toText _
  rw [toList_toText] at hcut
  have hline : ∀ cut, cut <+: 'X' :: ' ' :: whole.fingerprint.toList →
      ((RecordReader.start whole.fingerprint).read 0 cut = .ok r ↔
        ∃ k ≤ whole.entries.length, r = whole.firstTypes k ∧
          (cut = r.toText.toList ∨ cut ++ ['\n'] = r.toText.toList)) := by
    intro cut hcut
    rw [read_fingerprint hfingerprint hcut]
    constructor
    · rintro ⟨rfl, rfl⟩
      exact ⟨0, Nat.zero_le _, rfl, .inr (htext 0).symm⟩
    · rintro ⟨k, -, rfl, hends⟩
      rw [htext] at hends
      obtain ⟨hcut, hnil⟩ := eq_of_prefix_fingerprint hfingerprint hcut hends
      unfold firstTypes
      exact ⟨hcut, by rw [hnil]; rfl⟩
  rcases Lines.prefix_append_cases hcut with hcut | ⟨rest, rfl, hrest⟩
  · exact hline cut hcut
  rcases List.prefix_cons_iff.mp hrest with rfl | ⟨later, rfl, hlater⟩
  · rw [List.append_nil]
    exact hline _ (List.prefix_refl _)
  -- The line of the fingerprint is there, and blocks behind it.
  rw [read_fingerprint_append hfingerprint]
  have hends : ∀ k, (('X' :: ' ' :: whole.fingerprint.toList) ++ '\n' :: later =
      (whole.firstTypes k).toText.toList ∨
        (('X' :: ' ' :: whole.fingerprint.toList) ++ '\n' :: later) ++ ['\n'] =
          (whole.firstTypes k).toText.toList) ↔
      later = entriesText (whole.entries.take k) ∨
        later ++ ['\n'] = entriesText (whole.entries.take k) := by
    intro k
    rw [htext, List.append_assoc, List.append_cancel_left_eq, List.append_cancel_left_eq,
      List.cons_append, List.cons_inj_right, List.cons_inj_right]
  have hfirst : ∀ k, later = entriesText (whole.entries.take k) ∨
      later ++ ['\n'] = entriesText (whole.entries.take k) →
      RecordReader.read ⟨empty whole.fingerprint, true, none⟩ 1 later =
        .ok (whole.firstTypes k) := by
    intro k hk
    rw [← addBlocks_take hordered]
    exact RecordReader.read_entriesText
      (fun entry hentry => hlegible entry (List.mem_of_mem_take hentry)) rfl rfl hk
  constructor
  · intro hread
    obtain ⟨k, hk, hlast⟩ := RecordReader.exists_take_of_read_ok hlegible rfl hlater hread
    obtain rfl := Except.ok.inj (hread.symm.trans (hfirst k hlast))
    exact ⟨k, hk, rfl, (hends k).mpr hlast⟩
  · rintro ⟨k, -, rfl, hlast⟩
    exact hfirst k ((hends k).mp hlast)

theorem exists_pair_not_mem (hordered : whole.Ordered)
    (hfilled : ∀ entry ∈ whole.entries, entry.2 ≠ []) {k : Nat} (hk : k < whole.entries.length) :
    ∃ p ∈ whole.pairs, p ∉ (whole.firstTypes k).pairs := by
  have hsplit : whole.pairs =
      (whole.firstTypes k).pairs ++ pairsOf (whole.entries.drop k) := by
    show pairsOf _ = pairsOf _ ++ pairsOf _
    unfold pairsOf
    rw [← List.flatMap_append]
    exact congrArg _ (List.take_append_drop k _).symm
  have hnodup := hordered.nodup_pairs
  rw [hsplit] at hnodup ⊢
  obtain ⟨name, hname⟩ := List.exists_mem_of_ne_nil _ (hfilled _ (List.getElem_mem hk))
  have hpair : (whole.entries[k].1, name) ∈ pairsOf (whole.entries.drop k) :=
    List.mem_flatMap.mpr ⟨whole.entries[k], List.mem_drop_iff_getElem.mpr ⟨0, by omega, rfl⟩,
      List.mem_map_of_mem hname⟩
  exact ⟨_, List.mem_append_right _ hpair, fun hmem =>
    (List.nodup_append.mp hnodup).2.2 _ hmem _ hpair rfl⟩

/-! ## What a cut leaves -/

/-- A record is made by adding methods, its text breaks off somewhere, and what is left is read for
the fingerprint of the record. If a record comes out, it has the first types of the record and
the text broke off behind the last of them. So a record that lacks a method comes out exactly if
the text broke off between two blocks, or behind the line of the fingerprint. -/
theorem ofText_cut {cut : String} (hfingerprint : OneLine fingerprint)
    (hnames : ∀ p ∈ added, OneLine p.1 ∧ OneLine p.2)
    (hwhole : whole = (empty fingerprint).addEach added)
    (hcut : cut.toList <+: whole.toText.toList) :
    (∀ r, ofText cut source fingerprint = .ok (some r) ↔ ∃ k ≤ whole.entries.length,
      r = whole.firstTypes k ∧ (cut = r.toText ∨ cut ++ "\n" = r.toText)) ∧
    ((∃ r, ofText cut source fingerprint = .ok (some r) ∧ ∃ p ∈ whole.pairs, p ∉ r.pairs) ↔
      ∃ k < whole.entries.length,
        cut = (whole.firstTypes k).toText ∨ cut ++ "\n" = (whole.firstTypes k).toText) := by
  have hordered : whole.Ordered := hwhole ▸ (ordered_empty fingerprint).addEach
  have hlegible : ∀ entry ∈ whole.entries, Legible entry := hwhole ▸ legible_addEach hnames
  have hkept : whole.fingerprint = fingerprint := hwhole ▸ fingerprint_addEach added
  have hread : ∀ r, ofText cut source fingerprint = .ok (some r) ↔ ∃ k ≤ whole.entries.length,
      r = whole.firstTypes k ∧ (cut = r.toText ∨ cut ++ "\n" = r.toText) := by
    intro r
    rw [ofText_eq_some_iff, ← hkept, read_of_prefix hordered (hkept ▸ hfingerprint) hlegible hcut]
    simp only [← String.toList_inj, String.toList_append]
    rfl
  refine ⟨hread, ?_⟩
  constructor
  · rintro ⟨r, hr, p, hp, hmissing⟩
    obtain ⟨k, hk, rfl, hends⟩ := (hread r).mp hr
    refine ⟨k, lt_of_le_of_ne hk fun heq => hmissing ?_, hends⟩
    unfold firstTypes
    rw [heq, List.take_length]
    exact hp
  · rintro ⟨k, hk, hends⟩
    exact ⟨_, (hread _).mpr ⟨k, Nat.le_of_lt hk, rfl, hends⟩,
      exists_pair_not_mem hordered (fun entry hentry => (hlegible entry hentry).nonempty) hk⟩

def assemblyFingerprint : String := "0.3.2 // 2025-09-04T17:12:09Z"

def twoTypes : PatchRecord :=
  ((empty assemblyFingerprint).add "HeroController" "System.Void HeroController::Attack()").add
    "GameManager" "System.Boolean GameManager::CanSave()"

/-- The text of two blocks that breaks off at the end of the first one. -/
theorem ofText_cut_twoTypes :
    ofText ("X 0.3.2 // 2025-09-04T17:12:09Z\n" ++
        "T GameManager\nM System.Boolean GameManager::CanSave()\nE")
      "c" assemblyFingerprint = .ok (some (twoTypes.firstTypes 1)) := by
  have htwo : twoTypes = (empty assemblyFingerprint).addEach
      [("HeroController", "System.Void HeroController::Attack()"),
        ("GameManager", "System.Boolean GameManager::CanSave()")] := rfl
  exact ((ofText_cut (by decide +kernel) (by decide +kernel) htwo (by decide +kernel)).1 _).mpr
    ⟨1, by decide +kernel, rfl, .inr (by decide +kernel)⟩

/-- A record that lacks a method can come out of the start of a text: nothing says that another
block was to follow. -/
theorem not_all_cuts_noticed : ∃ (cut : String) (r : PatchRecord),
    cut.toList <+: twoTypes.toText.toList ∧
    ofText cut "c" assemblyFingerprint = .ok (some r) ∧
    ("HeroController", "System.Void HeroController::Attack()") ∈ twoTypes.pairs ∧
    ("HeroController", "System.Void HeroController::Attack()") ∉ r.pairs :=
  ⟨"X 0.3.2 // 2025-09-04T17:12:09Z\nT GameManager\nM System.Boolean GameManager::CanSave()\nE\n",
    ⟨assemblyFingerprint, [("GameManager", ["System.Boolean GameManager::CanSave()"])]⟩,
    by decide +kernel, by decide +kernel, by decide +kernel, by decide +kernel⟩

end PatchRecord

end CilWeave
