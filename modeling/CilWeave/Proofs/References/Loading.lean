import CilWeave.Document.Modules
import CilWeave.Proofs.References.Interning

/-
What the tokens of a module document name once it is loaded.

A document lists its references by row, and a token of its code names the reference of a row. On
loading, the references are imported one after the other, so the table has one row for each
different reference (`Module.Loaded.rows`), and where one occurs twice the rows behind it move up.
The token of a row keeps its meaning exactly if no reference is repeated up to that row, and all
do exactly if none is repeated at all (`Module.loaded_of_ofJson`).
-/

namespace CilWeave

/-! ## Lists without their repetitions -/

theorem eraseDups_sublist {α : Type} [BEq α] [LawfulBEq α] :
    ∀ xs : List α, xs.eraseDups.Sublist xs
  | [] => List.Sublist.refl _
  | x :: xs => by
    rw [List.eraseDups_cons]
    have hrest := eraseDups_sublist (xs.filter fun y => !y == x)
    exact (hrest.trans List.filter_sublist).cons_cons x
termination_by xs => xs.length
decreasing_by exact Nat.lt_succ_of_le (List.length_filter_le _ _)

theorem nodup_eraseDups {α : Type} [BEq α] [LawfulBEq α] :
    ∀ xs : List α, xs.eraseDups.Nodup
  | [] => List.nodup_nil
  | x :: xs => by
    rw [List.eraseDups_cons, List.nodup_cons]
    refine ⟨fun hmem => ?_, nodup_eraseDups (xs.filter fun y => !y == x)⟩
    have hne := (List.mem_filter.mp (List.mem_eraseDups.mp hmem)).2
    rw [beq_self_eq_true] at hne
    cases hne
termination_by xs => xs.length
decreasing_by exact Nat.lt_succ_of_le (List.length_filter_le _ _)

section

variable {α : Type} [BEq α] [LawfulBEq α] {a : α} {front back : List α}

theorem getElem?_eraseDups_of_mem (h : a ∈ front) (back : List α) :
    ∃ n < front.length, (front ++ back).eraseDups[n]? = some a := by
  obtain ⟨n, hn⟩ := List.mem_iff_getElem?.mp (List.mem_eraseDups.mpr h)
  have hlt : n < front.eraseDups.length := (List.getElem?_eq_some_iff.mp hn).1
  refine ⟨n, Nat.lt_of_lt_of_le hlt (eraseDups_sublist front).length_le, ?_⟩
  rw [List.eraseDups_append, List.getElem?_append_left hlt]
  exact hn

theorem getElem?_eraseDups_of_not_mem (h : a ∉ front) (back : List α) :
    (front ++ a :: back).eraseDups[front.eraseDups.length]? = some a := by
  have hkept : (a :: back).removeAll front = a :: back.removeAll front := by
    simp [List.removeAll, h]
  rw [List.eraseDups_append, hkept, List.eraseDups_cons,
    List.getElem?_append_right (Nat.le_refl _), Nat.sub_self]
  rfl

theorem getElem?_eraseDups_iff :
    (front ++ a :: back).eraseDups[front.length]? = some a ↔ (front ++ [a]).Nodup := by
  -- No element stands at two places.
  have hplace {m n : Nat} (hm : (front ++ a :: back).eraseDups[m]? = some a)
      (hn : (front ++ a :: back).eraseDups[n]? = some a) : m = n :=
    (List.getElem?_inj (List.getElem?_eq_some_iff.mp hm).1 (nodup_eraseDups _)).mp
      (hm.trans hn.symm)
  rw [List.nodup_append]
  by_cases hmem : a ∈ front
  · refine iff_of_false (fun hn => ?_) fun hnodup => hnodup.2.2 a hmem a List.mem_cons_self rfl
    obtain ⟨m, hlt, hm⟩ := getElem?_eraseDups_of_mem hmem (a :: back)
    exact Nat.ne_of_lt hlt (hplace hm hn)
  · have hm := getElem?_eraseDups_of_not_mem hmem back
    constructor
    · intro hn
      have hall : front.eraseDups = front :=
        (eraseDups_sublist front).eq_of_length (hplace hm hn)
      refine ⟨hall ▸ nodup_eraseDups front, by simp, ?_⟩
      rintro b hb c hc rfl
      exact hmem (List.mem_singleton.mp hc ▸ hb)
    · rintro ⟨hnodup, -, -⟩
      rwa [ReferenceTable.eraseDups_of_nodup hnodup] at hm

end

theorem getElem?_eraseDups_iff_take {α : Type} [BEq α] [LawfulBEq α] {xs : List α} {n : Nat}
    {a : α} (h : xs[n]? = some a) :
    xs.eraseDups[n]? = some a ↔ (xs.take (n + 1)).Nodup := by
  obtain ⟨hlt, ha⟩ := List.getElem?_eq_some_iff.mp h
  have hfront : (xs.take n).length = n := List.length_take_of_le (Nat.le_of_lt hlt)
  have hsplit : xs.take n ++ a :: xs.drop (n + 1) = xs := by
    rw [← ha, List.getElem_cons_drop, List.take_append_drop]
  have htake : xs.take (n + 1) = xs.take n ++ [a] := by
    rw [List.take_add_one, h]
    rfl
  have hplace : (xs.take n ++ a :: xs.drop (n + 1)).eraseDups[(xs.take n).length]? = some a ↔
      (xs.take n ++ [a]).Nodup := getElem?_eraseDups_iff
  rwa [hfront, hsplit, ← htake] at hplace

theorem forall_nodup_take_iff {α : Type} {xs : List α} :
    (∀ n a, xs[n]? = some a → (xs.take (n + 1)).Nodup) ↔ xs.Nodup := by
  constructor
  · intro h
    cases hlength : xs.length with
    | zero =>
      rw [List.length_eq_zero_iff.mp hlength]
      exact List.nodup_nil
    | succ n =>
      have hlt : n < xs.length := hlength ▸ Nat.lt_succ_self n
      have hall := h n xs[n] (List.getElem?_eq_getElem hlt)
      rwa [← hlength, List.take_length] at hall
  · intro h n a _
    exact h.sublist (List.take_sublist (n + 1) xs)

/-! ## A field of a record -/

namespace Document

variable {σ α : Type}

/-- The members that a sequence of values stands for. -/
def keyed (fields : List String) (items : List Json) : List (Option String × Json) :=
  (fields.zip items).map fun (key, j) => (some key, j)

/-- The value that a record gives to one of its fields, by the key or by the place. -/
def fieldOf? (fields : List String) (key : String) : Json → Option Json
  | .object entries => entries.lookup (some key)
  | .array items => (keyed fields items).lookup (some key)
  | _ => none

/-- Of the keys of a record, one fills a part of the state that was not filled before, and the
others leave it. -/
structure Fills (fields : List String) (step : σ → String → Json → Read σ) (key : String)
    (part : σ → Option α) (read : Json → Read α) : Prop where
  known : key ∈ fields
  here : ∀ {s s' : σ} {j : Json}, step s key j = .ok s' →
    part s = none ∧ ∃ a, read j = .ok a ∧ part s' = some a
  elsewhere : ∀ {s s' : σ} {other : String} {j : Json}, other ∈ fields → other ≠ key →
    step s other j = .ok s' → part s' = part s

variable {fields : List String} {step : σ → String → Json → Read σ} {key : String}
  {part : σ → Option α} {read : Json → Read α} {a : α}

theorem once_eq_ok {slot : Option α} {put : Option α → σ} {j : Json} {s' : σ}
    (h : (once slot read j).map put = .ok s') :
    slot = none ∧ ∃ a, read j = .ok a ∧ s' = put (some a) := by
  unfold once at h
  cases slot with
  | some _ => cases h
  | none =>
    cases hread : read j with
    | error fault =>
      rw [hread] at h
      cases h
    | ok a =>
      rw [hread] at h
      cases h
      exact ⟨rfl, a, rfl, rfl⟩

/-- A part that is filled behind the members was so before, or is by the value of its key. -/
theorem Fills.members (h : Fills fields step key part read) :
    ∀ {entries : List (Option String × Json)} {s s' : σ},
      members fields step s entries = .ok s' → part s' = some a →
      part s = some a ∨
        part s = none ∧ ∃ j, entries.lookup (some key) = some j ∧ read j = .ok a
  | [], _, _, hrun, ha => by
    cases hrun
    exact .inl ha
  | (none, _) :: _, _, _, hrun, _ => by cases hrun
  | (some name, j) :: rest, s, s', hrun, ha => by
    have hskip (hne : name ≠ key) :
        List.lookup (some key) ((some name, j) :: rest) = rest.lookup (some key) := by
      have hbeq : (some key == some name) = false := by simpa using hne.symm
      rw [List.lookup_cons, hbeq]
    unfold Document.members at hrun
    split at hrun
    · rename_i hknown
      have hname : name ∈ fields := List.contains_iff_mem.mp hknown
      split at hrun
      · rename_i next hstep
        have hnext := Fills.members h hrun ha
        by_cases hkey : name = key
        -- The part is filled here, so no later member fills it.
        · subst hkey
          obtain ⟨hempty, b, hb, hfilled⟩ := h.here hstep
          rw [hfilled] at hnext
          obtain heq | ⟨hnone, -⟩ := hnext
          · cases heq
            exact .inr ⟨hempty, j, List.lookup_cons_self, hb⟩
          · cases hnone
        · rwa [hskip hkey, ← h.elsewhere hname hkey hstep]
      · cases hrun
    · rename_i hunknown
      have hkey : name ≠ key := by
        rintro rfl
        exact hunknown (List.contains_iff_mem.mpr h.known)
      split at hrun
      · rw [hskip hkey]
        exact Fills.members h hrun ha
      · cases hrun

/-- What a record fills a part with is the value of its field. -/
theorem Fills.record {absent : Nat} {start s : σ} {j : Json}
    (h : Fills fields step key part read) (hrun : record fields absent step start j = .ok s)
    (hstart : part start = none) (ha : part s = some a) :
    ∃ item, fieldOf? fields key j = some item ∧ read item = .ok a := by
  have hmembers {entries : List (Option String × Json)}
      (hrun : Document.members fields step start entries = .ok s) :
      ∃ item, entries.lookup (some key) = some item ∧ read item = .ok a := by
    rcases h.members hrun ha with hfilled | ⟨-, hvalue⟩
    · rw [hstart] at hfilled
      cases hfilled
    · exact hvalue
  cases j with
  | object entries => exact hmembers hrun
  | array items =>
    refine hmembers ?_
    change (Document.members fields step start (keyed fields items) >>= fun last =>
      if fields.length ≤ items.length + absent ∧ items.length ≤ fields.length then .ok last
      else misshapen) = .ok s at hrun
    cases hlast : Document.members fields step start (keyed fields items) with
    | error fault =>
      rw [hlast] at hrun
      cases hrun
    | ok last =>
      rw [hlast] at hrun
      change (if _ then Except.ok last else misshapen) = Except.ok s at hrun
      split at hrun
      · exact hrun
      · cases hrun
  | _ => cases hrun

end Document

/-! ## The references of a module document -/

namespace Module

def documentKeys : List String := ["name", "types", "fields", "methods", "references"]

def listedReferences? (j : Json) : Option (List MemberRef) := do
  (Document.list MemberRef.ofJson (← Document.fieldOf? documentKeys "references" j)).toOption

def listedMethods? (j : Json) : Option (List MethodDef) := do
  (Document.list MethodDef.ofJson (← Document.fieldOf? documentKeys "methods" j)).toOption

theorem readField_kept {f f' : Fields} {key : String} {j : Json} (hknown : key ∈ documentKeys)
    (h : readField f key j = .ok f') :
    (key ≠ "methods" → f'.methods = f.methods) ∧
      (key ≠ "references" → f'.references = f.references) := by
  simp only [documentKeys, List.mem_cons, List.not_mem_nil, or_false] at hknown
  rcases hknown with rfl | rfl | rfl | rfl | rfl
  · obtain ⟨-, name, -, rfl⟩ := Document.once_eq_ok h
    exact ⟨fun _ => rfl, fun _ => rfl⟩
  · obtain ⟨-, types, -, rfl⟩ := Document.once_eq_ok h
    exact ⟨fun _ => rfl, fun _ => rfl⟩
  · obtain ⟨-, fields, -, rfl⟩ := Document.once_eq_ok h
    exact ⟨fun _ => rfl, fun _ => rfl⟩
  · obtain ⟨-, methods, -, rfl⟩ := Document.once_eq_ok h
    exact ⟨absurd rfl, fun _ => rfl⟩
  · obtain ⟨-, references, -, rfl⟩ := Document.once_eq_ok h
    exact ⟨fun _ => rfl, absurd rfl⟩

theorem fills_methods : Document.Fills documentKeys readField "methods"
    Fields.methods (Document.list MethodDef.ofJson) where
  known := by decide
  here h := by
    obtain ⟨hempty, methods, hread, rfl⟩ := Document.once_eq_ok h
    exact ⟨hempty, methods, hread, rfl⟩
  elsewhere hknown hne h := (readField_kept hknown h).1 hne

theorem fills_references : Document.Fills documentKeys readField "references"
    Fields.references ReferenceTable.ofJson where
  known := by decide
  here h := by
    obtain ⟨hempty, table, hread, rfl⟩ := Document.once_eq_ok h
    exact ⟨hempty, table, hread, rfl⟩
  elsewhere hknown hne h := (readField_kept hknown h).2 hne

theorem exists_fields_of_ofJson {j : Json} {m : Module} (h : ofJson j = .ok m) :
    ∃ f, Document.record documentKeys 0 readField ⟨none, none, none, none, none⟩ j = .ok f ∧
      f.methods = some m.methods.toList ∧ f.references = some m.references := by
  unfold ofJson at h
  cases hrecord : Document.record documentKeys 0 readField ⟨none, none, none, none, none⟩ j with
  | error fault =>
    rw [← documentKeys, hrecord] at h
    cases h
  | ok f =>
    refine ⟨f, rfl, ?_⟩
    rw [← documentKeys, hrecord] at h
    obtain ⟨name, types, fields, methods, references⟩ := f
    cases name <;> cases types <;> cases fields <;> cases methods <;> cases references <;> cases h
    exact ⟨rfl, rfl⟩

theorem listedMethods?_of_ofJson {j : Json} {m : Module} (h : ofJson j = .ok m) :
    listedMethods? j = some m.methods.toList := by
  obtain ⟨f, hrecord, hmethods, -⟩ := exists_fields_of_ofJson h
  obtain ⟨item, hitem, hread⟩ := fills_methods.record hrecord rfl hmethods
  unfold listedMethods?
  rw [hitem, Option.bind_eq_bind, Option.bind_some, hread]
  rfl

theorem exists_listedReferences {j : Json} {m : Module} (h : ofJson j = .ok m) :
    ∃ members, listedReferences? j = some members ∧ m.references = .ofList members := by
  obtain ⟨f, hrecord, -, hreferences⟩ := exists_fields_of_ofJson h
  obtain ⟨item, hitem, htable⟩ := fills_references.record hrecord rfl hreferences
  cases hread : Document.list MemberRef.ofJson item with
  | error fault =>
    rw [ReferenceTable.ofJson, hread] at htable
    cases htable
  | ok members =>
    rw [ReferenceTable.ofJson, hread] at htable
    refine ⟨members, ?_, (Except.ok.inj htable).symm⟩
    unfold listedReferences?
    rw [hitem, Option.bind_eq_bind, Option.bind_some, hread]
    rfl

/-- What the tokens of a document name in the module loaded from it. -/
structure Loaded (members : List MemberRef) (m : Module) : Prop where
  /-- The token of a row keeps its member exactly if none is repeated up to that row. -/
  row : ∀ n member, members[n]? = some member →
    (m.references.get (Token.ofIndex member.table n) = .ok member ↔
      (members.take (n + 1)).Nodup)
  /-- All rows keep their members exactly if none is repeated. -/
  rows : (∀ n member, members[n]? = some member →
    m.references.get (Token.ofIndex member.table n) = .ok member) ↔ members.Nodup
  /-- An operand that names a row in the document names its member under the same condition. -/
  operand : ∀ method ∈ m.methods, ∀ body ∈ method.body, ∀ slot ∈ body.code.slots,
    ∀ n member token, members[n]? = some member → Token.ofIndex member.table n = token →
      slot.instruction.operand = .token token →
      (m.references.get token = .ok member ↔ (members.take (n + 1)).Nodup)

theorem get_ofIndex_iff {table : ReferenceTable} {member : MemberRef} {n : Nat}
    (h : n + 1 < 0x1000000) :
    table.get (Token.ofIndex member.table n) = .ok member ↔ table.toList[n]? = some member := by
  unfold ReferenceTable.toList
  rw [Array.getElem?_toList]
  refine ⟨fun hget => ?_, fun hn => ReferenceTable.get_ofIndex hn h⟩
  obtain ⟨-, m, hm, hmember⟩ := ReferenceTable.get_iff.mp hget
  rw [Token.index?_ofIndex h] at hm
  cases hm
  exact hmember

/-- A document is loaded with the code it lists and with one row for each different reference it
lists. If the rows fit into tokens, the token of a row keeps its member exactly if none is
repeated up to there. -/
theorem loaded_of_ofJson {j : Json} {m : Module} (h : ofJson j = .ok m) :
    listedMethods? j = some m.methods.toList ∧
    ∃ members, listedReferences? j = some members ∧
      m.references.toList = members.eraseDups ∧
      (members.length < 0x1000000 → Loaded members m) := by
  obtain ⟨members, hlisted, htable⟩ := exists_listedReferences h
  have hrows : m.references.toList = members.eraseDups :=
    htable ▸ ReferenceTable.toList_ofList members
  refine ⟨listedMethods?_of_ofJson h, members, hlisted, hrows, fun hfits => ?_⟩
  have hrow (n : Nat) (member : MemberRef) (hn : members[n]? = some member) :
      m.references.get (Token.ofIndex member.table n) = .ok member ↔
        (members.take (n + 1)).Nodup := by
    have hlt : n < members.length := (List.getElem?_eq_some_iff.mp hn).1
    rw [get_ofIndex_iff (Nat.lt_of_le_of_lt hlt hfits), hrows, getElem?_eraseDups_iff_take hn]
  refine ⟨hrow, ?_, ?_⟩
  · rw [← forall_nodup_take_iff]
    exact forall₃_congr hrow
  · rintro - - - - - - n member - hn rfl -
    exact hrow n member hn

/-- Two fields of a cache, the first of them listed twice. -/
def repeatedReferences : List MemberRef :=
  let size := .field ⟨.ofClass "Cache", "size", .primitive .i4⟩
  [size, size, .field ⟨.ofClass "Cache", "count", .primitive .i4⟩]

def repeatedDocument : Json :=
  .record [("name", .string "Game"), ("types", .array []), ("fields", .array []),
    ("methods", .array []), ("references", .ofList MemberRef.toJson repeatedReferences)]

def repeatedModule : Module := ⟨"Game", #[], #[], #[], .ofList repeatedReferences⟩

theorem ofJson_repeatedDocument : ofJson repeatedDocument = .ok repeatedModule := rfl

theorem loaded_of_ofJson_repeated : ofJson repeatedDocument = .ok repeatedModule ∧
    listedReferences? repeatedDocument = some repeatedReferences ∧
    repeatedModule.references.toList = repeatedReferences.eraseDups ∧
    Loaded repeatedReferences repeatedModule := by
  obtain ⟨-, members, hlisted, hrows, hloaded⟩ := loaded_of_ofJson ofJson_repeatedDocument
  have hmembers : listedReferences? repeatedDocument = some repeatedReferences := rfl
  cases Option.some.inj (hlisted.symm.trans hmembers)
  exact ⟨ofJson_repeatedDocument, hmembers, hrows, hloaded (by decide)⟩

/-- The token of the second row names the third reference after loading. -/
theorem not_all_rows_kept : ¬ ∀ (j : Json) (m : Module) (members : List MemberRef),
    ofJson j = .ok m → listedReferences? j = some members → members.length < 0x1000000 →
    ∀ n member, members[n]? = some member →
      m.references.get (Token.ofIndex member.table n) = .ok member := by
  intro h
  have hsecond := h repeatedDocument repeatedModule repeatedReferences rfl rfl (by decide) 1 _ rfl
  have hrow := (get_ofIndex_iff (by decide)).mp hsecond
  rw [repeatedModule, ReferenceTable.toList_ofList] at hrow
  exact absurd hrow (by decide)

end Module

end CilWeave
