import CilWeave.Proofs.Record.Acceptance

/-
Records that come back from their text.

Names are written as they are, so a name that holds a line feed or ends in a carriage return is
lost: no line of a text is like that (`PatchRecord.plain_of_mem_linesOf`). All other names
come back, whatever they look like, because a name stands behind the mark of its line
(`PatchRecord.linesOf_toText`). Both together say for which records writing and reading are
inverse to each other (`PatchRecord.ofText_toText`).
-/

namespace CilWeave

open Lines (Plain)

/-! ## Lines without line feeds and carriage returns -/

namespace Lines

variable {cs l : List Char}

theorem not_mem_of_mem_split {separator : Char} {piece : List Char}
    (h : piece ∈ Pieces.split separator cs) : separator ∉ piece := by
  induction cs generalizing piece with
  | nil =>
    rw [List.mem_singleton.mp h]
    exact List.not_mem_nil
  | cons c cs ih =>
    obtain ⟨first, rest, hsplit⟩ := List.exists_cons_of_ne_nil (Pieces.split_ne_nil separator cs)
    rw [hsplit] at ih
    unfold Pieces.split at h
    split at h
    · rcases List.mem_cons.mp h with rfl | h
      · exact List.not_mem_nil
      · exact ih (hsplit ▸ h)
    · rename_i hne
      rw [hsplit] at h
      rcases List.mem_cons.mp h with rfl | h
      · exact List.not_mem_cons_of_ne_of_not_mem (Ne.symm hne) (ih List.mem_cons_self)
      · exact ih (List.mem_cons_of_mem first h)

theorem mem_of_mem_dropReturn {c : Char} (h : c ∈ dropReturn l) : c ∈ l := by
  unfold dropReturn at h
  split at h
  · rename_i rest hreverse
    rw [← List.mem_reverse, hreverse]
    exact List.mem_cons_of_mem _ (List.mem_reverse.mp h)
  · exact h

theorem mem_of_mem_dropReturns {c : Char} (h : c ∈ dropReturns l) : c ∈ l :=
  List.mem_reverse.mp ((List.dropWhile_sublist _).subset (List.mem_reverse.mp h))

theorem getLast?_dropReturns (l : List Char) : (dropReturns l).getLast? ≠ some '\r' := by
  unfold dropReturns
  rw [List.getLast?_reverse]
  intro hlast
  have hnot := List.head?_dropWhile_not (· == '\r') l.reverse
  rw [hlast] at hnot
  cases hnot

theorem lineFeed_of_mem_ofPieces {pieces : List (List Char)} (h : ∀ piece ∈ pieces, '\n' ∉ piece)
    (hl : l ∈ ofPieces pieces) : '\n' ∉ l := by
  fun_induction ofPieces pieces with
  | case1 => cases hl
  | case2 last hempty => cases hl
  | case3 last hempty => exact h l hl
  | case4 piece rest hne ih =>
    obtain ⟨hpiece, hrest⟩ := List.forall_mem_cons.mp h
    rcases List.mem_cons.mp hl with rfl | hl
    · exact fun hfeed => hpiece (mem_of_mem_dropReturn hfeed)
    · exact ih hrest hl

theorem plain_dropReturns_of_mem (h : l ∈ of cs) : Plain (dropReturns l) where
  lineFeed hfeed := lineFeed_of_mem_ofPieces (fun _ => not_mem_of_mem_split) h
    (mem_of_mem_dropReturns hfeed)
  carriageReturn := getLast?_dropReturns l

end Lines

namespace PatchRecord

open RecordLanguage
open RecordLine (said said_method said_fingerprint)

variable {r : PatchRecord} {text source fingerprint expected type name : String}
  {added : List (String × String)}

theorem plain_of_mem_linesOf {line : String} (h : line ∈ linesOf text) : Plain line.toList := by
  obtain ⟨l, hl, rfl⟩ := List.mem_map.mp h
  rw [String.toList_ofList]
  exact Lines.plain_dropReturns_of_mem hl

theorem plain_marked_iff {mark : String} {c : Char} (hmark : mark.toList = [c, ' '])
    (hc : c ≠ '\n') : Plain (mark ++ name).toList ↔ Plain name.toList := by
  rw [toList_marked, hmark]
  generalize name.toList = l
  have hfeed : '\n' ∈ [c, ' '] ++ l ↔ '\n' ∈ l := by simp [hc.symm]
  have hlast : ([c, ' '] ++ l).getLast? = some '\r' ↔ l.getLast? = some '\r' := by
    cases l with
    | nil => simp
    | cons c cs => exact Iff.rfl
  constructor
  · intro h
    exact ⟨fun hmem => h.lineFeed (hfeed.mpr hmem), fun heq => h.carriageReturn (hlast.mpr heq)⟩
  · intro h
    exact ⟨fun hmem => h.lineFeed (hfeed.mp hmem), fun heq => h.carriageReturn (hlast.mp heq)⟩

/-! ## The lines of the text -/

/-- A record whose fingerprint and names are read as they are written. -/
structure Writable (r : PatchRecord) : Prop where
  fingerprint : Plain r.fingerprint.toList
  names : ∀ p ∈ r.pairs, Plain p.1.toList ∧ Plain p.2.toList

theorem Writable.plain_lines (h : r.Writable) (hfilled : ∀ entry ∈ r.entries, entry.2 ≠ []) :
    ∀ line ∈ r.lines, Plain line.toList := by
  have hstated : Plain ("X " ++ r.fingerprint).toList :=
    (plain_marked_iff rfl (by decide)).mpr h.fingerprint
  refine List.forall_mem_cons.mpr ⟨hstated, fun line hline => ?_⟩
  obtain ⟨entry, hentry, hline⟩ := List.mem_flatMap.mp hline
  have hpair : ∀ name ∈ entry.2, (entry.1, name) ∈ r.pairs := fun name hname =>
    List.mem_flatMap.mpr ⟨entry, hentry, List.mem_map_of_mem hname⟩
  rcases List.mem_cons.mp hline with rfl | hline
  · obtain ⟨name, hname⟩ := List.exists_mem_of_ne_nil _ (hfilled entry hentry)
    exact (plain_marked_iff rfl (by decide)).mpr (h.names _ (hpair name hname)).1
  rcases List.mem_append.mp hline with hmethod | hending
  · obtain ⟨name, hname, rfl⟩ := List.mem_map.mp hmethod
    exact (plain_marked_iff rfl (by decide)).mpr (h.names _ (hpair name hname)).2
  · rw [List.mem_singleton.mp hending]
    decide

/-- Plain lines are the lines of the text they make. -/
theorem linesOf_toText (h : ∀ line ∈ r.lines, Plain line.toList) : linesOf r.toText = r.lines := by
  have hplain : ∀ l ∈ r.lines.map String.toList, Plain l := by
    intro l hl
    obtain ⟨line, hline, rfl⟩ := List.mem_map.mp hl
    exact h line hline
  have hlines := Lines.of_ended_append hplain []
  rw [List.append_nil, Lines.of_nil, List.append_nil] at hlines
  unfold linesOf
  rw [toList_toText_eq_ended, hlines, List.map_map]
  have hkept : ∀ line ∈ r.lines,
      ((fun l => String.ofList (Lines.dropReturns l)) ∘ String.toList) line = line := by
    intro line hline
    show String.ofList (Lines.dropReturns line.toList) = line
    rw [Lines.dropReturns_of_getLast? (h line hline).carriageReturn, String.ofList_toList]
  rw [List.map_congr_left hkept, List.map_id']

theorem methodNames_map (names : List String) : methodNames (names.map ("M " ++ ·)) = names := by
  unfold methodNames
  induction names with
  | nil => rfl
  | cons name rest ih => rw [List.map_cons, List.filterMap_cons, said_method, ih]

theorem holds_entryLines {entry : String × List String} (h : entry.2 ≠ []) :
    Holds fingerprint (entryLines entry) [entry] := by
  obtain ⟨type, names⟩ := entry
  have hinner : ∀ line ∈ names.map ("M " ++ ·), [line] ∈ methods + fillers fingerprint := by
    intro line hline
    obtain ⟨name, -, rfl⟩ := List.mem_map.mp hline
    exact .inl (mem_methods.mpr ⟨name, rfl⟩)
  have hblock : Holds fingerprint _ ((type, methodNames (names.map ("M " ++ ·))) :: []) :=
    .block hinner (by rwa [methodNames_map]) (mem_endings.mpr (.inl rfl)) .nil
  rwa [methodNames_map] at hblock

theorem holds_blocks {entries : List (String × List String)}
    (hfilled : ∀ entry ∈ entries, entry.2 ≠ []) :
    Holds fingerprint (entries.flatMap entryLines) entries := by
  induction entries with
  | nil => exact .nil
  | cons entry rest ih =>
    obtain ⟨hentry, hrest⟩ := List.forall_mem_cons.mp hfilled
    exact (holds_entryLines hentry).append (ih hrest)

theorem holds_lines (hfilled : ∀ entry ∈ r.entries, entry.2 ≠ []) :
    Holds r.fingerprint r.lines r.entries :=
  .filler (mem_fillers.mpr (.inl rfl)) (holds_blocks hfilled)

theorem writable_of_ofText (h : ofText text source fingerprint = .ok (some r)) : r.Writable := by
  obtain ⟨hrecord, hof⟩ := ofText_eq_some_record_iff.mp h
  constructor
  · rw [hof.fingerprint_eq]
    exact (plain_marked_iff rfl (by decide)).mp (plain_of_mem_linesOf hrecord.2)
  · rintro ⟨type, name⟩ hpair
    obtain ⟨front, inner, ending, back, hlines, -, -, -, hname⟩ :=
      (hof.mem_pairs_iff type name).mp hpair
    have htype : "T " ++ type ∈ linesOf text := by simp [hlines]
    have hmethod : "M " ++ name ∈ linesOf text := by simp [hlines, hname]
    exact ⟨(plain_marked_iff rfl (by decide)).mp (plain_of_mem_linesOf htype),
      (plain_marked_iff rfl (by decide)).mp (plain_of_mem_linesOf hmethod)⟩

theorem ofText_toText_of_writable (h : r.Writable) (hordered : r.Ordered)
    (hfilled : ∀ entry ∈ r.entries, entry.2 ≠ []) (source : String) :
    ofText r.toText source r.fingerprint = .ok (some r) := by
  have hread : addBlocks (.empty r.fingerprint) r.entries = r :=
    addBlocks_eq (by simpa using hordered.types) hordered.names
  have hstated : "X " ++ r.fingerprint ∈ r.lines := List.mem_cons_self
  rw [ofText_eq, linesOf_toText (h.plain_lines hfilled),
    RecordReader.run_of_holds (holds_lines hfilled), if_pos hstated, hread]

theorem ofText_toText_of_ne (h : Plain r.fingerprint.toList) (hne : expected ≠ r.fingerprint)
    (source : String) : ofText r.toText source expected = .ok none := by
  have hlines : ∃ rest, linesOf r.toText = ("X " ++ r.fingerprint) :: rest := by
    have hplain : Plain ("X " ++ r.fingerprint).toList :=
      (plain_marked_iff rfl (by decide)).mpr h
    unfold linesOf
    rw [toList_toText_eq_ended]
    unfold lines
    rw [List.singleton_append, List.map_cons, Lines.ended_cons, Lines.of_line_append hplain,
      List.map_cons, Lines.dropReturns_of_getLast? hplain.carriageReturn, String.ofList_toList]
    exact ⟨_, rfl⟩
  obtain ⟨rest, hlines⟩ := hlines
  have hstep : (RecordReader.start expected).step 1 (said ("X " ++ r.fingerprint)) =
      .error .stale := by
    rw [said_fingerprint]
    exact if_neg (Ne.symm hne)
  rw [ofText_eq, hlines, List.map_cons, RecordReader.run.eq_2, hstep]

/-- A record that was made by adding methods comes back from its text exactly if neither its
fingerprint nor a name in it holds a line feed or ends in a carriage return. For any other
fingerprint its text is no record. -/
theorem ofText_toText (fingerprint source : String) (added : List (String × String)) :
    (ofText ((empty fingerprint).addEach added).toText source fingerprint =
        .ok (some ((empty fingerprint).addEach added)) ↔
      Plain fingerprint.toList ∧
        ∀ p ∈ ((empty fingerprint).addEach added).pairs, Plain p.1.toList ∧ Plain p.2.toList) ∧
    ∀ expected, expected ≠ fingerprint → Plain fingerprint.toList →
      ofText ((empty fingerprint).addEach added).toText source expected = .ok none := by
  have hkept : ((empty fingerprint).addEach added).fingerprint = fingerprint :=
    fingerprint_addEach added
  have hordered : ((empty fingerprint).addEach added).Ordered := (ordered_empty _).addEach
  have hfilled : ∀ entry ∈ ((empty fingerprint).addEach added).entries, entry.2 ≠ [] :=
    filled_addEach (by simp [empty]) added
  refine ⟨⟨fun h => ?_, ?_⟩, fun expected hne hplain => ?_⟩
  · obtain ⟨hfingerprint, hnames⟩ := writable_of_ofText h
    exact ⟨hkept ▸ hfingerprint, hnames⟩
  · rintro ⟨hfingerprint, hnames⟩
    have hread := ofText_toText_of_writable ⟨hkept.symm ▸ hfingerprint, hnames⟩ hordered hfilled
      source
    rwa [hkept] at hread
  · exact ofText_toText_of_ne (hkept.symm ▸ hplain) (hkept.symm ▸ hne) source

/-- Names that look like lines come back, even the empty one. -/
example : let r := (empty "X E").addEach [("E", "T a"), ("", "M\r b"), ("", ""), ("E", "E ")]
    ofText r.toText "r" "X E" = .ok (some r) := by decide +kernel

end PatchRecord

end CilWeave
