import Mathlib.Data.List.Nodup
import Mathlib.Data.String.Basic
import CilWeave.Record.Basic

/-
What a record holds after methods were added.

Names are put into their places, types first and methods within their type. A record holds
the pairs that were added to it and no others (`PatchRecord.mem_pairs_add`), and as long as
it is ordered it holds none of them twice (`PatchRecord.Ordered.nodup_pairs`).
-/

namespace CilWeave.PatchRecord

variable {type name : String} {names : List String} {r : PatchRecord}

/-! ## Membership -/

def pairsOf (entries : List (String × List String)) : List (String × String) :=
  entries.flatMap fun (type, names) => names.map fun name => (type, name)

theorem mem_insertName {x : String} : x ∈ insertName name names ↔ x = name ∨ x ∈ names := by
  induction names with
  | nil => exact List.mem_cons
  | cons other rest ih =>
    unfold insertName
    split
    · rename_i heq
      rw [heq, List.mem_cons]
      exact ⟨.inr, fun h => h.elim .inl id⟩
    · split
      · exact List.mem_cons
      · rw [List.mem_cons, ih, List.mem_cons]
        exact or_left_comm

theorem mem_types_insertEntry {entries : List (String × List String)} {x : String} :
    x ∈ (insertEntry type names entries).map Prod.fst ↔
      x = type ∨ x ∈ entries.map Prod.fst := by
  induction entries with
  | nil => exact List.mem_cons
  | cons entry rest ih =>
    obtain ⟨other, others⟩ := entry
    unfold insertEntry
    split
    · rename_i heq
      rw [heq, List.map_cons, List.map_cons, List.mem_cons]
      exact ⟨.inr, fun h => h.elim .inl id⟩
    · split
      · exact List.mem_cons
      · rw [List.map_cons, List.map_cons, List.mem_cons, ih, List.mem_cons]
        exact or_left_comm

theorem mem_pairsOf_cons {other : String} {rest : List (String × List String)}
    {p : String × String} :
    p ∈ pairsOf ((other, names) :: rest) ↔ p.1 = other ∧ p.2 ∈ names ∨ p ∈ pairsOf rest := by
  unfold pairsOf
  rw [List.flatMap_cons, List.mem_append]
  refine or_congr_left ⟨fun h => ?_, fun ⟨hother, hname⟩ => ?_⟩
  · obtain ⟨name, hname, rfl⟩ := List.mem_map.mp h
    exact ⟨rfl, hname⟩
  · exact List.mem_map.mpr ⟨p.2, hname, by rw [← hother]⟩

theorem mem_foldl_insertName {seen : List String} {x : String} :
    x ∈ names.foldl (fun names name => insertName name names) seen ↔ x ∈ names ∨ x ∈ seen := by
  induction names generalizing seen with
  | nil => exact (or_iff_right List.not_mem_nil).symm
  | cons name names ih =>
    rw [List.foldl_cons, ih, mem_insertName, List.mem_cons]
    exact or_left_comm.trans or_assoc.symm

theorem mem_pairsOf_insertEntry {entries : List (String × List String)} {p : String × String} :
    p ∈ pairsOf (insertEntry type names entries) ↔
      p.1 = type ∧ p.2 ∈ names ∨ p ∈ pairsOf entries := by
  have hnew : ∀ {x : String}, x ∈ names.foldl (fun names name => insertName name names) [] ↔
      x ∈ names := mem_foldl_insertName.trans (or_iff_left List.not_mem_nil)
  induction entries with
  | nil =>
    unfold insertEntry
    rw [mem_pairsOf_cons, hnew]
  | cons entry rest ih =>
    obtain ⟨other, others⟩ := entry
    unfold insertEntry
    split
    · rename_i heq
      rw [heq, mem_pairsOf_cons, mem_pairsOf_cons, mem_foldl_insertName, and_or_left, or_assoc]
    · split
      · rw [mem_pairsOf_cons, hnew]
      · rw [mem_pairsOf_cons, mem_pairsOf_cons]
        exact (or_congr_right ih).trans or_left_comm

theorem mem_pairs_addAll {p : String × String} :
    p ∈ (r.addAll type names).pairs ↔ p.1 = type ∧ p.2 ∈ names ∨ p ∈ r.pairs :=
  mem_pairsOf_insertEntry

/-- A record with one more method holds that method, and else what it held before. -/
theorem mem_pairs_add {p : String × String} :
    p ∈ (r.add type name).pairs ↔ p = (type, name) ∨ p ∈ r.pairs := by
  unfold add
  rw [mem_pairs_addAll, List.mem_singleton, Prod.ext_iff]

/-! ## Order -/

/-- Types, and the methods of each type, stand in the order of their characters. -/
structure Ordered (r : PatchRecord) : Prop where
  types : (r.entries.map Prod.fst).Pairwise (· < ·)
  names : ∀ entry ∈ r.entries, entry.2.Pairwise (· < ·)

theorem pairwise_insertName (h : names.Pairwise (· < ·)) :
    (insertName name names).Pairwise (· < ·) := by
  induction names with
  | nil => exact List.pairwise_singleton _ _
  | cons other rest ih =>
    unfold insertName
    split
    · exact h
    · rename_i hne
      obtain ⟨hother, hrest⟩ := List.pairwise_cons.mp h
      split
      · rename_i hlt
        refine List.pairwise_cons.mpr ⟨fun x hx => ?_, h⟩
        rcases List.mem_cons.mp hx with rfl | hx
        · exact hlt
        · exact hlt.trans (hother x hx)
      · rename_i hnot
        refine List.pairwise_cons.mpr ⟨fun x hx => ?_, ih hrest⟩
        rcases mem_insertName.mp hx with rfl | hx
        · exact lt_of_le_of_ne (not_lt.mp hnot) (Ne.symm hne)
        · exact hother x hx

theorem pairwise_foldl_insertName {seen : List String} (h : seen.Pairwise (· < ·)) :
    (names.foldl (fun names name => insertName name names) seen).Pairwise (· < ·) := by
  induction names generalizing seen with
  | nil => exact h
  | cons name names ih => exact ih (pairwise_insertName h)

theorem ordered_empty (fingerprint : String) : (empty fingerprint).Ordered :=
  ⟨List.Pairwise.nil, by simp [empty]⟩

theorem ordered_insertEntry {entries : List (String × List String)}
    (htypes : (entries.map Prod.fst).Pairwise (· < ·))
    (hnames : ∀ entry ∈ entries, entry.2.Pairwise (· < ·)) :
    ((insertEntry type names entries).map Prod.fst).Pairwise (· < ·) ∧
      ∀ entry ∈ insertEntry type names entries, entry.2.Pairwise (· < ·) := by
  have hnew : (names.foldl (fun names name => insertName name names) []).Pairwise (· < ·) :=
    pairwise_foldl_insertName List.Pairwise.nil
  induction entries with
  | nil =>
    refine ⟨List.pairwise_singleton _ _, fun entry hentry => ?_⟩
    rw [List.mem_singleton.mp hentry]
    exact hnew
  | cons entry rest ih =>
    obtain ⟨other, others⟩ := entry
    obtain ⟨hother, hrest⟩ := List.pairwise_cons.mp htypes
    obtain ⟨hfirst, hlater⟩ := List.forall_mem_cons.mp hnames
    unfold insertEntry
    split
    · exact ⟨htypes, List.forall_mem_cons.mpr ⟨pairwise_foldl_insertName hfirst, hlater⟩⟩
    · rename_i hne
      split
      · rename_i hlt
        refine ⟨List.pairwise_cons.mpr ⟨fun x hx => ?_, htypes⟩,
          List.forall_mem_cons.mpr ⟨hnew, hnames⟩⟩
        rcases List.mem_cons.mp hx with rfl | hx
        · exact hlt
        · exact hlt.trans (hother x hx)
      · rename_i hnot
        obtain ⟨htypes', hnames'⟩ := ih hrest hlater
        refine ⟨List.pairwise_cons.mpr ⟨fun x hx => ?_, htypes'⟩,
          List.forall_mem_cons.mpr ⟨hfirst, hnames'⟩⟩
        rcases mem_types_insertEntry.mp hx with rfl | hx
        · exact lt_of_le_of_ne (not_lt.mp hnot) (Ne.symm hne)
        · exact hother x hx

theorem Ordered.addAll (h : r.Ordered) (type : String) (names : List String) :
    (r.addAll type names).Ordered := by
  obtain ⟨htypes, hnames⟩ := ordered_insertEntry h.types h.names
  exact ⟨htypes, hnames⟩

theorem Ordered.add (h : r.Ordered) (type name : String) : (r.add type name).Ordered :=
  h.addAll type [name]

theorem lt_of_mem_pairsOf {rest : List (String × List String)} {p : String × String}
    (h : (((type, names) :: rest).map Prod.fst).Pairwise (· < ·))
    (hp : p ∈ pairsOf rest) : type < p.1 := by
  obtain ⟨entry, hentry, hpair⟩ := List.mem_flatMap.mp hp
  obtain ⟨name, -, rfl⟩ := List.mem_map.mp hpair
  exact (List.pairwise_cons.mp h).1 entry.1 (List.mem_map_of_mem hentry)

/-- In an ordered record no pair is there twice. -/
theorem Ordered.nodup_pairs (h : r.Ordered) : r.pairs.Nodup := by
  obtain ⟨fingerprint, entries⟩ := r
  obtain ⟨htypes, hnames⟩ := h
  simp only at htypes hnames
  show (pairsOf entries).Nodup
  induction entries with
  | nil => exact List.nodup_nil
  | cons entry rest ih =>
    obtain ⟨other, names⟩ := entry
    obtain ⟨hother, hrest⟩ := List.pairwise_cons.mp htypes
    obtain ⟨hfirst, hlater⟩ := List.forall_mem_cons.mp hnames
    unfold pairsOf
    rw [List.flatMap_cons, List.nodup_append]
    refine ⟨?_, ih hrest hlater, ?_⟩
    · exact List.Nodup.map (fun _ _ heq => (Prod.ext_iff.mp heq).2) (hfirst.imp ne_of_lt)
    · rintro a ha b hb rfl
      obtain ⟨name, -, rfl⟩ := List.mem_map.mp ha
      exact lt_irrefl other (lt_of_mem_pairsOf htypes hb)

/-! ## Records of the same pairs -/

section SamePairs

variable {type' : String} {names' : List String} {rest rest' : List (String × List String)}
  {p : String × String}

theorem mem_names_iff (h : (((type, names) :: rest).map Prod.fst).Pairwise (· < ·)) :
    name ∈ names ↔ (type, name) ∈ pairsOf ((type, names) :: rest) := by
  rw [mem_pairsOf_cons]
  refine ⟨fun hname => .inl ⟨rfl, hname⟩, fun hpair => ?_⟩
  rcases hpair with ⟨-, hname⟩ | hrest
  · exact hname
  · exact absurd (lt_of_mem_pairsOf h hrest) (lt_irrefl type)

theorem mem_pairsOf_rest_iff (h : (((type, names) :: rest).map Prod.fst).Pairwise (· < ·)) :
    p ∈ pairsOf rest ↔ p ∈ pairsOf ((type, names) :: rest) ∧ p.1 ≠ type := by
  rw [mem_pairsOf_cons]
  constructor
  · intro hrest
    exact ⟨.inr hrest, ne_of_gt (lt_of_mem_pairsOf h hrest)⟩
  · rintro ⟨hpair, hne⟩
    exact hpair.resolve_left fun hfirst => hne hfirst.1

theorem head_le_of_mem_pairsOf (h : (((type, names) :: rest).map Prod.fst).Pairwise (· < ·))
    (hp : p ∈ pairsOf ((type, names) :: rest)) : type ≤ p.1 := by
  rcases mem_pairsOf_cons.mp hp with ⟨heq, -⟩ | hrest
  · exact le_of_eq heq.symm
  · exact le_of_lt (lt_of_mem_pairsOf h hrest)

theorem not_mem_pairsOf_nil : p ∉ pairsOf [] := List.not_mem_nil

theorem exists_mem_pairsOf (h : names ≠ []) :
    ∃ name, (type, name) ∈ pairsOf ((type, names) :: rest) := by
  obtain ⟨name, hname⟩ := List.exists_mem_of_ne_nil names h
  exact ⟨name, mem_pairsOf_cons.mpr (.inl ⟨rfl, hname⟩)⟩

/-- Entries in order, each with a method, are known by their pairs. -/
theorem eq_of_pairsOf : ∀ {entries entries' : List (String × List String)},
    (entries.map Prod.fst).Pairwise (· < ·) → (entries'.map Prod.fst).Pairwise (· < ·) →
    (∀ entry ∈ entries, entry.2.Pairwise (· < ·) ∧ entry.2 ≠ []) →
    (∀ entry ∈ entries', entry.2.Pairwise (· < ·) ∧ entry.2 ≠ []) →
    (∀ p, p ∈ pairsOf entries ↔ p ∈ pairsOf entries') → entries = entries'
  | [], [], _, _, _, _, _ => rfl
  | [], (type, names) :: rest, _, _, _, hnames', hpairs => by
    obtain ⟨name, hmem⟩ := exists_mem_pairsOf (hnames' (type, names) List.mem_cons_self).2
    exact absurd ((hpairs _).mpr hmem) not_mem_pairsOf_nil
  | (type, names) :: rest, [], _, _, hnames, _, hpairs => by
    obtain ⟨name, hmem⟩ := exists_mem_pairsOf (hnames (type, names) List.mem_cons_self).2
    exact absurd ((hpairs _).mp hmem) not_mem_pairsOf_nil
  | (type, names) :: rest, (type', names') :: rest', htypes, htypes', hnames, hnames', hpairs => by
    obtain ⟨⟨hsorted, hfilled⟩, hrest⟩ := List.forall_mem_cons.mp hnames
    obtain ⟨⟨hsorted', hfilled'⟩, hrest'⟩ := List.forall_mem_cons.mp hnames'
    obtain ⟨name, hmem⟩ := exists_mem_pairsOf hfilled
    obtain ⟨name', hmem'⟩ := exists_mem_pairsOf hfilled'
    have hle : type' ≤ type := head_le_of_mem_pairsOf htypes' ((hpairs _).mp hmem)
    have hge : type ≤ type' := head_le_of_mem_pairsOf htypes ((hpairs _).mpr hmem')
    obtain rfl : type = type' := le_antisymm hge hle
    have hperm : names.Perm names' := by
      refine (List.perm_ext_iff_of_nodup (hsorted.imp ne_of_lt) (hsorted'.imp ne_of_lt)).mpr ?_
      intro x
      rw [mem_names_iff htypes, mem_names_iff htypes', hpairs]
    obtain rfl : names = names' := hperm.eq_of_pairwise
      (fun _ _ _ _ hlt hgt => absurd hlt (lt_asymm hgt)) hsorted hsorted'
    have htail : rest = rest' := by
      refine eq_of_pairsOf (List.pairwise_cons.mp htypes).2 (List.pairwise_cons.mp htypes').2
        hrest hrest' fun p => ?_
      rw [mem_pairsOf_rest_iff htypes, mem_pairsOf_rest_iff htypes', hpairs]
    rw [htail]

/-- Records that are in order and have no type without a method are equal if they are for the same
fingerprint and have the same pairs. -/
theorem Ordered.eq_of_pairs {r r' : PatchRecord} (h : r.Ordered) (h' : r'.Ordered)
    (hfilled : ∀ entry ∈ r.entries, entry.2 ≠ []) (hfilled' : ∀ entry ∈ r'.entries, entry.2 ≠ [])
    (hfingerprint : r.fingerprint = r'.fingerprint) (hpairs : ∀ p, p ∈ r.pairs ↔ p ∈ r'.pairs) :
    r = r' := by
  obtain ⟨fingerprint, entries⟩ := r
  obtain ⟨fingerprint', entries'⟩ := r'
  obtain rfl : fingerprint = fingerprint' := hfingerprint
  have hentries : entries = entries' := eq_of_pairsOf h.types h'.types
    (fun entry hentry => ⟨h.names entry hentry, hfilled entry hentry⟩)
    (fun entry hentry => ⟨h'.names entry hentry, hfilled' entry hentry⟩) hpairs
  rw [hentries]

end SamePairs

/-! ## Many methods -/

/-- The record with some more methods, added one after the other. -/
def addEach (r : PatchRecord) (added : List (String × String)) : PatchRecord :=
  added.foldl (fun r p => r.add p.1 p.2) r

theorem mem_pairs_addEach {p : String × String} : ∀ {added : List (String × String)}
    {r : PatchRecord}, p ∈ (r.addEach added).pairs ↔ p ∈ added ∨ p ∈ r.pairs
  | [], _ => by simp [addEach]
  | first :: rest, r => by
    have ih : p ∈ ((r.add first.1 first.2).addEach rest).pairs ↔ _ := mem_pairs_addEach
    show p ∈ ((r.add first.1 first.2).addEach rest).pairs ↔ _
    rw [ih, mem_pairs_add, List.mem_cons]
    exact or_left_comm.trans or_assoc.symm

theorem Ordered.addEach : ∀ {added : List (String × String)} {r : PatchRecord}, r.Ordered →
    (r.addEach added).Ordered
  | [], _, h => h
  | first :: rest, r, h => by
    show ((r.add first.1 first.2).addEach rest).Ordered
    exact Ordered.addEach (h.add first.1 first.2)

end CilWeave.PatchRecord
