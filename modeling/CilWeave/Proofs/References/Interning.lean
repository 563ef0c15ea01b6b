import Mathlib.Data.List.Nodup
import CilWeave.Proofs.Document.Members
import CilWeave.Proofs.References

/-
A sequence of imports into a table of references.

The rows of a table are distinct, and its tokens are the pairs of a row with its number. An
interned member adds at most one pair (`tokens_intern`), so after a sequence of them the tokens
are those there were and the new ones in the order of their first import, and each token names
its member for good (`internEach_exact`). A table with an index beside its rows, in which a
member is found by one look-up, issues the same tokens, and its index stays the inverse of the
rows (`IndexedTable.Indexes.internEach`).
-/

namespace CilWeave

namespace ReferenceTable

/-- The tokens of some members, imported one after the other, and the table after them. -/
def internEach : List MemberRef → ReferenceTable → List Token × ReferenceTable
  | [], table => ([], table)
  | member :: members, table =>
    let (token, table) := table.intern member
    let (tokens, table) := internEach members table
    (token :: tokens, table)

variable {table later : ReferenceTable} {member : MemberRef} {token : Token}

/-! ## The tokens of the rows -/

theorem mem_tokens : (token, member) ∈ table.tokens ↔
    ∃ n, table.entries[n]? = some member ∧ Token.ofIndex member.table n = token := by
  unfold tokens toList
  simp only [List.mem_iff_getElem?, List.getElem?_mapIdx, Array.getElem?_toList,
    Option.map_eq_some_iff, Prod.mk.injEq]
  constructor
  · rintro ⟨n, other, hn, htoken, rfl⟩
    exact ⟨n, hn, htoken⟩
  · rintro ⟨n, hn, htoken⟩
    exact ⟨n, member, hn, htoken, rfl⟩

theorem mem_toList_of_mem_tokens (h : (token, member) ∈ table.tokens) :
    member ∈ table.toList := by
  obtain ⟨n, hn, -⟩ := mem_tokens.mp h
  exact Array.mem_toList_iff.mpr (Array.mem_of_getElem? hn)

theorem mem_tokens_of_find? (h : table.find? member = some token) :
    (token, member) ∈ table.tokens := by
  obtain ⟨n, hn, htoken⟩ := Option.map_eq_some_iff.mp h
  obtain ⟨hlt, hmember, -⟩ := Array.findIdx?_eq_some_iff_getElem.mp hn
  refine mem_tokens.mpr ⟨n, ?_, htoken⟩
  rw [Array.getElem?_eq_getElem hlt, eq_of_beq hmember]

theorem find?_isSome (h : member ∈ table.toList) : ∃ token, table.find? member = some token := by
  cases hfind : table.find? member with
  | some token => exact ⟨token, rfl⟩
  | none =>
    have hnone := Array.findIdx?_eq_none_iff.mp (Option.map_eq_none_iff.mp hfind)
    have hne := hnone member (Array.mem_toList_iff.mp h)
    rw [beq_self_eq_true] at hne
    cases hne

theorem find?_eq_some_iff : table.find? member = some token ↔ (token, member) ∈ table.tokens := by
  refine ⟨mem_tokens_of_find?, fun h => ?_⟩
  obtain ⟨found, hfound⟩ := find?_isSome (mem_toList_of_mem_tokens h)
  obtain ⟨n, hn, rfl⟩ := mem_tokens.mp h
  obtain ⟨m, hm, rfl⟩ := mem_tokens.mp (mem_tokens_of_find? hfound)
  rw [← Array.getElem?_toList] at hn hm
  have hsame : m = n :=
    (List.getElem?_inj (List.getElem?_eq_some_iff.mp hm).1 table.nodup).mp (hm.trans hn.symm)
  rw [hfound, hsame]

theorem find?_push (h : table.find? member = none) (other : MemberRef) :
    find? ⟨table.entries.push member, nodup_push h⟩ other =
      if member == other then some (Token.ofIndex member.table table.size)
      else table.find? other := by
  have hnone := Option.map_eq_none_iff.mp h
  unfold find?
  rw [Array.findIdx?_push]
  by_cases hsame : member = other
  · subst hsame
    rw [hnone]
    simp [size]
  · simp [hsame]

theorem tokens_push (h : table.find? member = none) :
    tokens ⟨table.entries.push member, nodup_push h⟩ =
      table.tokens ++ [(Token.ofIndex member.table table.size, member)] := by
  unfold tokens toList
  rw [Array.toList_push, List.mapIdx_append]
  simp [size]

/-- An import issues a token that the table holds, or adds the pair of a new one. -/
theorem tokens_intern (table : ReferenceTable) (member : MemberRef) :
    ((table.intern member).1, member) ∈ table.tokens ∧ (table.intern member).2 = table ∨
      (table.intern member).2.tokens = table.tokens ++ [((table.intern member).1, member)] := by
  cases hfind : table.find? member with
  | some token =>
    rw [intern_of_some hfind]
    exact .inl ⟨mem_tokens_of_find? hfind, rfl⟩
  | none =>
    rw [intern_of_none hfind]
    exact .inr (tokens_push hfind)

theorem mem_tokens_intern (table : ReferenceTable) (member : MemberRef) :
    ((table.intern member).1, member) ∈ (table.intern member).2.tokens := by
  rcases table.tokens_intern member with ⟨hmem, heq⟩ | heq
  · rw [heq]
    exact hmem
  · rw [heq]
    exact List.mem_append_right _ List.mem_cons_self

theorem GrowsTo.mem_tokens (h : table.GrowsTo later) (hmem : (token, member) ∈ table.tokens) :
    (token, member) ∈ later.tokens := by
  obtain ⟨n, hn, htoken⟩ := ReferenceTable.mem_tokens.mp hmem
  exact ReferenceTable.mem_tokens.mpr ⟨n, h.getElem?_eq hn, htoken⟩

theorem nodup_tokens (table : ReferenceTable) : table.tokens.Nodup := by
  have hmap : table.tokens.map Prod.snd = table.toList := by
    unfold tokens
    refine List.ext_getElem? fun n => ?_
    rw [List.getElem?_map, List.getElem?_mapIdx, Option.map_map]
    exact Option.map_id' ..
  refine List.Nodup.of_map Prod.snd ?_
  rw [hmap]
  exact table.nodup

/-! ## Sequences of imports -/

theorem growsTo_internEach : ∀ (members : List MemberRef) (table : ReferenceTable),
    table.GrowsTo (table.internEach members).2
  | [], table => .refl table
  | member :: members, table =>
    (table.growsTo_intern member).trans (growsTo_internEach members (table.intern member).2)

theorem length_internEach : ∀ (members : List MemberRef) (table : ReferenceTable),
    (table.internEach members).1.length = members.length
  | [], _ => rfl
  | member :: members, table =>
    congrArg (· + 1) (length_internEach members (table.intern member).2)

theorem eraseDups_of_nodup {α : Type} [BEq α] [LawfulBEq α] :
    ∀ {xs : List α}, xs.Nodup → xs.eraseDups = xs
  | [], _ => rfl
  | x :: xs, h => by
    obtain ⟨hx, hxs⟩ := List.nodup_cons.mp h
    have hfilter : xs.filter (fun y => !y == x) = xs := by
      refine List.filter_eq_self.mpr fun y hy => ?_
      have hne : y ≠ x := fun e => hx (e ▸ hy)
      rw [beq_eq_false_iff_ne.mpr hne]
      rfl
    rw [List.eraseDups_cons, hfilter, eraseDups_of_nodup hxs]

theorem eraseDups_append_cons {α : Type} [BEq α] [LawfulBEq α] {a : α} {front : List α}
    (h : a ∈ front) (back : List α) :
    (front ++ a :: back).eraseDups = (front ++ back).eraseDups := by
  rw [List.eraseDups_append, List.eraseDups_append]
  have hremove : (a :: back).removeAll front = back.removeAll front := by
    simp [List.removeAll, h]
  rw [hremove]

/-- After the imports the tokens are those before and the new ones by their first import. -/
theorem tokens_internEach : ∀ (members : List MemberRef) (table : ReferenceTable),
    (table.internEach members).2.tokens =
      (table.tokens ++ (table.internEach members).1.zip members).eraseDups
  | [], table => by
    show table.tokens = (table.tokens ++ []).eraseDups
    rw [List.append_nil]
    exact (eraseDups_of_nodup table.nodup_tokens).symm
  | member :: members, table => by
    have hrest := tokens_internEach members (table.intern member).2
    show ((table.intern member).2.internEach members).2.tokens =
      (table.tokens ++ ((table.intern member).1, member) ::
        (((table.intern member).2.internEach members).1.zip members)).eraseDups
    rw [hrest]
    rcases table.tokens_intern member with ⟨hmem, heq⟩ | heq
    · rw [eraseDups_append_cons hmem, heq]
    · rw [heq, List.append_assoc]
      rfl

theorem mem_tokens_of_mem_zip : ∀ {members : List MemberRef} {table : ReferenceTable},
    (token, member) ∈ (table.internEach members).1.zip members →
    (token, member) ∈ (table.internEach members).2.tokens
  | [], _, h => absurd h List.not_mem_nil
  | first :: members, table, h => by
    show (token, member) ∈ ((table.intern first).2.internEach members).2.tokens
    have hcases : (token, member) = ((table.intern first).1, first) ∨
        (token, member) ∈ ((table.intern first).2.internEach members).1.zip members :=
      List.mem_cons.mp h
    rcases hcases with heq | hrest
    · rw [heq]
      exact (growsTo_internEach members _).mem_tokens (table.mem_tokens_intern first)
    · exact mem_tokens_of_mem_zip hrest

/-! ## Written and read back -/

/-- The rows come in the order in which their members are first imported. -/
theorem toList_foldl_intern : ∀ (members : List MemberRef) (table : ReferenceTable),
    (members.foldl (fun table member => (table.intern member).2) table).toList =
      (table.toList ++ members).eraseDups
  | [], table => by
    show table.toList = (table.toList ++ []).eraseDups
    rw [List.append_nil]
    exact (eraseDups_of_nodup table.nodup).symm
  | member :: members, table => by
    rw [List.foldl_cons, toList_foldl_intern members]
    rcases table.intern_cases member with ⟨hmem, heq⟩ | ⟨-, heq⟩
    · rw [heq, eraseDups_append_cons hmem]
    · rw [heq, List.append_assoc]
      rfl

theorem eq_of_toList {later : ReferenceTable} (h : later.toList = table.toList) :
    later = table := by
  have hentries : later.entries = table.entries := Array.toList_inj.mp h
  cases later
  cases table
  cases hentries
  rfl

theorem toList_ofList (members : List MemberRef) :
    (ofList members).toList = members.eraseDups :=
  toList_foldl_intern members empty

theorem ofList_toList (table : ReferenceTable) : ofList table.toList = table :=
  eq_of_toList ((toList_ofList table.toList).trans (eraseDups_of_nodup table.nodup))

theorem ofJson_toJson (table : ReferenceTable) : ofJson table.toJson = .ok table := by
  have hlist := Document.list_ofList MemberRef.ofJson_toJson table.toList
  rw [ofJson, toJson, hlist]
  exact congrArg Except.ok table.ofList_toList

/-! ## What imports come to -/

/-- A token names a member, and names it only as what it is, a method or a field. -/
structure Names (table : ReferenceTable) (token : Token) (member : MemberRef) : Prop where
  get : table.get token = .ok member
  method : table.method token =
    match member with
    | .method method => .ok method
    | .field _ => .error (.unresolvedToken token)
  field : table.field token =
    match member with
    | .method _ => .error (.unresolvedToken token)
    | .field field => .ok field

theorem names_of_get (h : table.get token = .ok member) : table.Names token member where
  get := h
  method := by
    unfold ReferenceTable.method
    simp only [h]
    cases member <;> rfl
  field := by
    unfold ReferenceTable.field
    simp only [h]
    cases member <;> rfl

theorem names_of_mem_tokens (hfits : table.FitsTokens) (h : (token, member) ∈ table.tokens) :
    table.Names token member := by
  obtain ⟨n, hn, rfl⟩ := mem_tokens.mp h
  obtain ⟨hlt, -⟩ := Array.getElem?_eq_some_iff.mp hn
  exact names_of_get (get_ofIndex hn (Nat.lt_of_le_of_lt hlt hfits))

/-- What the table after some imports makes of the members and the tokens they got. -/
structure Interned (table : ReferenceTable) (members : List MemberRef) (tokens : List Token)
    (later : ReferenceTable) : Prop where
  /-- Each import gives a token. -/
  answered : tokens.length = members.length
  /-- A token names its member, however many imports came behind it. -/
  names : ∀ token member, (token, member) ∈ tokens.zip members → later.Names token member
  /-- Importing a member once more gives its token and changes nothing. -/
  again : ∀ token member, (token, member) ∈ tokens.zip members →
    later.intern member = (token, later)
  /-- Equal members share their token, and different ones do not. -/
  same : ∀ token member token' member', (token, member) ∈ tokens.zip members →
    (token', member') ∈ tokens.zip members → (token = token' ↔ member = member')
  /-- A member is found by its token if it was imported, and else not at all. -/
  found : ∀ member token, later.find? member = some token ↔
    (token, member) ∈ table.tokens ∨ (token, member) ∈ tokens.zip members
  /-- The tokens are those issued, in the order of the first import of each. -/
  listed : later.tokens = (table.tokens ++ tokens.zip members).eraseDups
  /-- Written and read back, the table has the same rows and so the same tokens. -/
  reread : ofJson later.toJson = .ok later

/-! ## A table with an index -/

/-- A table of references with an index from the members to their tokens. -/
structure IndexedTable [Hashable MemberRef] where
  rows : Array MemberRef
  index : Std.HashMap MemberRef Token

namespace IndexedTable

variable [Hashable MemberRef]

/-- The token of a member, looked up in the index, or that of a new last row. -/
def intern (indexed : IndexedTable) (member : MemberRef) : Token × IndexedTable :=
  match indexed.index[member]? with
  | some token => (token, indexed)
  | none =>
    let token := Token.ofIndex member.table indexed.rows.size
    (token, ⟨indexed.rows.push member, indexed.index.insert member token⟩)

/-- The tokens of some members, imported one after the other, and the table after them. -/
def internEach : List MemberRef → IndexedTable → List Token × IndexedTable
  | [], indexed => ([], indexed)
  | member :: members, indexed =>
    let (token, indexed) := indexed.intern member
    let (tokens, indexed) := internEach members indexed
    (token :: tokens, indexed)

/-- The rows are those of the table, and the index holds the tokens that are found there. -/
structure Indexes (indexed : IndexedTable) (table : ReferenceTable) : Prop where
  rows : indexed.rows = table.entries
  index : ∀ member, indexed.index[member]? = table.find? member

theorem indexes_empty : Indexes ⟨#[], ∅⟩ empty where
  rows := rfl
  index member := by
    rw [Std.HashMap.getElem?_empty]
    simp [find?, empty]

/-- One import keeps the index in step with the rows. -/
theorem Indexes.intern {indexed : IndexedTable} {table : ReferenceTable}
    (h : indexed.Indexes table) (member : MemberRef) :
    (indexed.intern member).1 = (table.intern member).1 ∧
      (indexed.intern member).2.Indexes (table.intern member).2 := by
  have hfound := h.index member
  unfold IndexedTable.intern
  cases hfind : table.find? member with
  | some token =>
    rw [hfound, hfind, intern_of_some hfind]
    exact ⟨rfl, h⟩
  | none =>
    rw [hfound, hfind, intern_of_none hfind]
    have htoken : Token.ofIndex member.table indexed.rows.size =
        Token.ofIndex member.table table.size := by rw [h.rows]; rfl
    refine ⟨htoken, congrArg (Array.push · member) h.rows, fun other => ?_⟩
    rw [Std.HashMap.getElem?_insert, find?_push hfind, h.index, htoken]

theorem Indexes.internEach : ∀ (members : List MemberRef) {indexed : IndexedTable}
    {table : ReferenceTable}, indexed.Indexes table →
    (indexed.internEach members).1 = (table.internEach members).1 ∧
      (indexed.internEach members).2.Indexes (table.internEach members).2
  | [], _, _, h => ⟨rfl, h⟩
  | member :: members, indexed, table, h => by
    obtain ⟨htoken, hnext⟩ := h.intern member
    obtain ⟨htokens, hlast⟩ := Indexes.internEach members hnext
    refine ⟨?_, hlast⟩
    show (indexed.intern member).1 :: ((indexed.intern member).2.internEach members).1 =
      (table.intern member).1 :: ((table.intern member).2.internEach members).1
    rw [htoken, htokens]

end IndexedTable

/-! ## The result -/

/-- A sequence of imports into a table, as long as the rows fit into tokens:
every import gives the token of its member, for good, and the table comes to the tokens issued,
each once. A table with an index gives the same tokens, and its index finds what the rows hold. -/
theorem internEach_exact {table later : ReferenceTable}
    {members : List MemberRef} {tokens : List Token}
    (hrun : table.internEach members = (tokens, later)) (hfits : later.FitsTokens) :
    table.Interned members tokens later ∧
      ∀ [Hashable MemberRef] (indexed : IndexedTable), indexed.Indexes table →
        (indexed.internEach members).1 = tokens ∧
          (indexed.internEach members).2.Indexes later := by
  obtain ⟨rfl, rfl⟩ := Prod.mk.inj hrun
  have hlisted := tokens_internEach members table
  have hfound : ∀ token member, (token, member) ∈ (table.internEach members).1.zip members →
      (table.internEach members).2.find? member = some token := fun token member h =>
    find?_eq_some_iff.mpr (mem_tokens_of_mem_zip h)
  have hnames : ∀ token member, (token, member) ∈ (table.internEach members).1.zip members →
      (table.internEach members).2.Names token member := fun token member h =>
    names_of_mem_tokens hfits (mem_tokens_of_mem_zip h)
  refine ⟨⟨length_internEach members table, hnames, ?_, ?_, ?_, hlisted, ofJson_toJson _⟩,
    fun _ hindexed => hindexed.internEach members⟩
  · intro token member h
    exact intern_of_some (hfound token member h)
  · intro token member token' member' h h'
    constructor
    · rintro rfl
      exact Except.ok.inj ((hnames _ _ h).get.symm.trans (hnames _ _ h').get)
    · rintro rfl
      exact Option.some.inj ((hfound _ _ h).symm.trans (hfound _ _ h'))
  · intro member token
    rw [find?_eq_some_iff, hlisted, List.mem_eraseDups, List.mem_append]

/-- A generic method, one of its instantiations and a field, and the method once more. -/
def lookups : List MemberRef :=
  let find := MethodRef.plain (.ofClass "Cache") "Find"
    ⟨true, .mvar 0, [.primitive .string], 1⟩
  [.method find, .method { find with genericArguments := [.ofClass "Texture"] },
    .field ⟨.ofClass "Cache", "size", .primitive .i4⟩, .method find]

/-- The tokens of the members: the second import of the method gives that of the first. -/
def lookupTokens : List Token := [⟨0x0A000001⟩, ⟨0x2B000002⟩, ⟨0x0A000003⟩, ⟨0x0A000001⟩]

theorem internEach_exact_lookups :
    empty.internEach lookups = (lookupTokens, (empty.internEach lookups).2) ∧
    (empty.internEach lookups).2.FitsTokens ∧
    empty.Interned lookups lookupTokens (empty.internEach lookups).2 ∧
    ∀ [Hashable MemberRef] (indexed : IndexedTable), indexed.Indexes empty →
      (indexed.internEach lookups).1 = lookupTokens ∧
        (indexed.internEach lookups).2.Indexes (empty.internEach lookups).2 :=
  have htokens : (empty.internEach lookups).1 = lookupTokens := by decide +kernel
  have hfits : (empty.internEach lookups).2.size < 0x1000000 := by decide +kernel
  have hrun : empty.internEach lookups = (lookupTokens, (empty.internEach lookups).2) :=
    Prod.ext htokens rfl
  ⟨hrun, hfits, internEach_exact hrun hfits⟩

end ReferenceTable

end CilWeave
