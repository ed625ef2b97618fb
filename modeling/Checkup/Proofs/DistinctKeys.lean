import Checkup.Proofs.Maps
import Checkup.Toml.Reader

/-!
# No key twice

Tables grow key by key, and what would put a key in twice is refused.

* `Value.Distinct`, `Node.Distinct`, `Table.Distinct` — no table has a key twice, at any depth.
* `Table.Distinct.addPairs`, `Table.Distinct.addSection` — tables stay so as they grow.
* `distinctWith` — the values of a text are so.
* `distinct_of_read` — a document that is read is so.
-/

namespace Checkup.Toml

/-- In a value no table has a key twice. -/
inductive Value.Distinct : Value → Prop
  | string (text : String) : Distinct (.string text)
  | integer (n : Int) : Distinct (.integer n)
  | float (x : Float) : Distinct (.float x)
  | boolean (b : Bool) : Distinct (.boolean b)
  | dateTime (d : DateTime) : Distinct (.dateTime d)
  /-- items of an array are so -/
  | array {items : List Value} (items_distinct : ∀ item ∈ items, Distinct item) :
      Distinct (.array items)
  /-- a table has its keys once, and values that are so -/
  | table {entries : Entries} (nodup : (entries.map Prod.fst).Nodup)
      (values : ∀ e ∈ entries, Distinct e.2) : Distinct (.table entries)

theorem Value.distinct_table_iff {entries : Entries} :
    (Value.table entries).Distinct ↔
      (entries.map Prod.fst).Nodup ∧ ∀ e ∈ entries, e.2.Distinct := by
  constructor
  · rintro (_ | _ | _ | _ | _ | _ | ⟨hnodup, hvalues⟩)
    exact ⟨hnodup, hvalues⟩
  · exact fun h => .table h.1 h.2

/-- In a part of a document no table has a key twice. -/
inductive Node.Distinct : Node → Prop
  /-- a finished value is so -/
  | value {v : Value} (distinct : v.Distinct) : Distinct (.value v)
  /-- a growing table has its keys once, and parts that are so -/
  | table {origin : Origin} {t : Table} (nodup : (t.map Prod.fst).Nodup)
      (nodes : ∀ e ∈ t, Distinct e.2) : Distinct (.table origin t)
  /-- elements of an array are so -/
  | elements {tables : List Node} (nodes : ∀ node ∈ tables, Distinct node) :
      Distinct (.elements tables)

/-- A growing table without a key twice. -/
structure Table.Distinct (t : Table) : Prop where
  /-- its keys are distinct -/
  nodup : (t.map Prod.fst).Nodup
  /-- its parts are so -/
  nodes : ∀ e ∈ t, e.2.Distinct

theorem Node.distinct_table_iff {origin : Origin} {t : Table} :
    (Node.table origin t).Distinct ↔ t.Distinct := by
  constructor
  · rintro (_ | ⟨hnodup, hnodes⟩)
    exact ⟨hnodup, hnodes⟩
  · exact fun h => .table h.nodup h.nodes

theorem Node.distinct_elements_iff {tables : List Node} :
    (Node.elements tables).Distinct ↔ ∀ node ∈ tables, node.Distinct := by
  constructor
  · rintro (_ | _ | hnodes)
    exact hnodes
  · exact .elements

namespace Table

/-! ## Changes at a key -/

theorem get?_eq_lookup? (t : Table) (key : String) : t.get? key = OrderedMap.lookup? key t := by
  induction t with
  | nil => rfl
  | cons e rest ih =>
    rw [get?, List.find?_cons, OrderedMap.lookup?]
    by_cases hkey : e.1 = key
    · simp [hkey]
    · rw [if_neg hkey, ← ih, get?]
      simp [hkey]

theorem set_eq_store (t : Table) (key : String) (node : Node) :
    t.set key node = OrderedMap.store key node t := by
  induction t with
  | nil => rfl
  | cons e rest ih => rw [set, OrderedMap.store, ih]

theorem distinct_nil : Distinct [] := ⟨List.nodup_nil, nofun⟩

namespace Distinct

variable {t t' : Table} {key : String} {node : Node}

/-- What is at a key has no key twice. -/
theorem of_get? (ht : t.Distinct) (hget : t.get? key = some node) : node.Distinct := by
  rw [get?_eq_lookup?] at hget
  exact ht.nodes _ (OrderedMap.mem_of_lookup?_eq_some hget)

theorem set (ht : t.Distinct) (hnode : node.Distinct) : (t.set key node).Distinct := by
  rw [set_eq_store]
  refine ⟨(OrderedMap.insert ⟨t, ht.nodup⟩ key node).nodup, fun e he => ?_⟩
  rcases OrderedMap.mem_store he with rfl | he
  · exact hnode
  · exact ht.nodes e he

/-- A new key goes last. -/
theorem concat (ht : t.Distinct) (hget : t.get? key = none) (hnode : node.Distinct) :
    Table.Distinct (t ++ [(key, node)]) := by
  rw [get?_eq_lookup?, OrderedMap.lookup?_eq_none_iff] at hget
  rw [← OrderedMap.store_of_new hget, ← set_eq_store]
  exact ht.set hnode

theorem erase (ht : t.Distinct) (key : String) : (t.erase key).Distinct :=
  ⟨ht.nodup.sublist (List.filter_sublist.map _), fun e he => ht.nodes e (List.mem_filter.mp he).1⟩

/-- There is nothing at a key that was erased. -/
theorem get?_erase (t : Table) (key : String) : (t.erase key).get? key = none := by
  refine get?_of_notMem fun hmem => ?_
  obtain ⟨e, he, rfl⟩ := List.mem_map.mp hmem
  simpa using (List.mem_filter.mp he).2

end Distinct

/-- A change that keeps tables without a key twice keeps arrays of tables so. -/
theorem distinct_of_onLastElement {change : Table → Option Table} {tables tables' : List Node}
    (hchange : ∀ sub sub', Table.Distinct sub → change sub = some sub' → sub'.Distinct)
    (htables : ∀ node ∈ tables, node.Distinct)
    (h : onLastElement change tables = some tables') : ∀ node ∈ tables', node.Distinct := by
  fun_induction onLastElement change tables generalizing tables' with
  | case1 => cases h
  | case2 origin sub =>
    obtain ⟨sub', hsub', rfl⟩ := Option.map_eq_some_iff.mp h
    have hsub := Node.distinct_table_iff.mp (htables _ List.mem_cons_self)
    simpa [Node.distinct_table_iff] using hchange _ _ hsub hsub'
  | case3 => cases h
  | case4 node rest _ _ ih =>
    obtain ⟨rest', hrest', rfl⟩ := Option.map_eq_some_iff.mp h
    rw [List.forall_mem_cons] at htables ⊢
    exact ⟨htables.1, ih htables.2 hrest'⟩

/-! ## Growing -/

namespace Distinct

variable {t t' : Table}

/-- Adding a value under a dotted key puts no key in twice. -/
theorem addPair {v : Value} (hv : v.Distinct) {path : List String} (ht : t.Distinct)
    (h : Table.addPair v t path = some t') : t'.Distinct := by
  fun_induction Table.addPair v t path generalizing t' with
  | case1 | case2 | case5 | case7 | case9 => cases h
  | case3 t key hget =>
    cases h
    exact ht.concat hget (.value hv)
  | case4 t key path _ hget ih =>
    obtain ⟨sub, hsub, rfl⟩ := Option.map_eq_some_iff.mp h
    exact ht.concat hget (Node.distinct_table_iff.mpr (ih distinct_nil hsub))
  | case6 =>
    rename_i hget _ ih
    obtain ⟨sub', hsub', rfl⟩ := Option.map_eq_some_iff.mp h
    have hsub := Node.distinct_table_iff.mp (ht.of_get? hget)
    exact ht.set (Node.distinct_table_iff.mpr (ih hsub hsub'))
  | case8 =>
    rename_i hget _ ih
    obtain ⟨tables', htables', rfl⟩ := Option.map_eq_some_iff.mp h
    have htables := Node.distinct_elements_iff.mp (ht.of_get? hget)
    exact ht.set (.elements (distinct_of_onLastElement (fun sub _ => ih sub) htables htables'))

theorem addPairs {pairs : List (List String × Value)} (hpairs : ∀ p ∈ pairs, p.2.Distinct)
    (ht : t.Distinct) (h : Table.addPairs t pairs = some t') : t'.Distinct := by
  induction pairs generalizing t with
  | nil =>
    cases h
    exact ht
  | cons p pairs ih =>
    obtain ⟨path, v⟩ := p
    rw [List.forall_mem_cons] at hpairs
    rw [Table.addPairs, List.foldlM_cons, Option.bind_eq_bind, Option.bind_eq_some_iff] at h
    obtain ⟨next, hnext, h⟩ := h
    exact ih hpairs.2 (ht.addPair hpairs.1 hnext) h

/-- Adding a section puts no key in twice. -/
theorem addSection {header : Header} {pairs : List (List String × Value)}
    (hpairs : ∀ p ∈ pairs, p.2.Distinct) {path : List String} (ht : t.Distinct)
    (h : Table.addSection header pairs t path = some t') : t'.Distinct := by
  have hopened {sub sub' : Table} (hsub : sub.Distinct)
      (h : Table.addPairs sub pairs = some sub') : (Node.table .opened sub').Distinct :=
    Node.distinct_table_iff.mpr (hsub.addPairs hpairs h)
  fun_induction Table.addSection header pairs t path generalizing t' with
  | case1 | case4 | case7 | case11 => cases h
  | case2 t key hget =>
    obtain ⟨sub, hsub, rfl⟩ := Option.map_eq_some_iff.mp h
    exact ht.concat hget (hopened distinct_nil hsub)
  | case3 t key sub hget =>
    obtain ⟨sub', hsub', rfl⟩ := Option.map_eq_some_iff.mp h
    have hsub := Node.distinct_table_iff.mp (ht.of_get? hget)
    exact (ht.erase key).concat (get?_erase t key) (hopened hsub hsub')
  | case5 t key hget =>
    obtain ⟨sub, hsub, rfl⟩ := Option.map_eq_some_iff.mp h
    refine ht.concat hget (.elements ?_)
    simpa using hopened distinct_nil hsub
  | case6 t key tables hget =>
    obtain ⟨sub, hsub, rfl⟩ := Option.map_eq_some_iff.mp h
    have htables := Node.distinct_elements_iff.mp (ht.of_get? hget)
    refine ht.set (.elements (List.forall_mem_append.mpr ⟨htables, ?_⟩))
    simpa using hopened distinct_nil hsub
  | case8 t key path _ hget ih =>
    obtain ⟨sub, hsub, rfl⟩ := Option.map_eq_some_iff.mp h
    exact ht.concat hget (Node.distinct_table_iff.mpr (ih distinct_nil hsub))
  | case9 t key path _ origin sub hget ih =>
    obtain ⟨sub', hsub', rfl⟩ := Option.map_eq_some_iff.mp h
    have hsub := Node.distinct_table_iff.mp (ht.of_get? hget)
    exact ht.set (Node.distinct_table_iff.mpr (ih hsub hsub'))
  | case10 t key path _ tables hget ih =>
    obtain ⟨tables', htables', rfl⟩ := Option.map_eq_some_iff.mp h
    have htables := Node.distinct_elements_iff.mp (ht.of_get? hget)
    exact ht.set (.elements (distinct_of_onLastElement (fun sub _ => ih sub) htables htables'))

end Distinct

/-! ## Finished tables -/

theorem map_fst_finishEntries (t : Table) :
    (finishEntries t).map Prod.fst = t.map Prod.fst := by
  induction t with
  | nil => rfl
  | cons e rest ih => rw [finishEntries, List.map_cons, List.map_cons, ih]

mutual

/-- Finishing keeps parts without a key twice. -/
theorem distinct_finishNode : ∀ {node : Node}, node.Distinct → (finishNode node).Distinct
  | .value _, .value hv => hv
  | .table _ t, .table hnodup hnodes =>
    .table ((map_fst_finishEntries t).symm ▸ hnodup) (distinct_finishEntries hnodes)
  | .elements _, .elements hnodes => .array (distinct_finishNodes hnodes)

theorem distinct_finishEntries : ∀ {t : Table}, (∀ e ∈ t, e.2.Distinct) →
    ∀ e ∈ finishEntries t, e.2.Distinct
  | [], _ => nofun
  | (_, _) :: _, h => by
    rw [finishEntries]
    rw [List.forall_mem_cons] at h ⊢
    exact ⟨distinct_finishNode h.1, distinct_finishEntries h.2⟩

theorem distinct_finishNodes : ∀ {nodes : List Node}, (∀ node ∈ nodes, node.Distinct) →
    ∀ v ∈ finishNodes nodes, v.Distinct
  | [], _ => nofun
  | _ :: _, h => by
    rw [finishNodes]
    rw [List.forall_mem_cons] at h ⊢
    exact ⟨distinct_finishNode h.1, distinct_finishNodes h.2⟩

end

/-- A finished table is a value without a key twice. -/
theorem Distinct.finish {t : Table} (ht : t.Distinct) : (Value.table (finishEntries t)).Distinct :=
  @distinct_finishNode (.table .opened t) (Node.distinct_table_iff.mpr ht)

end Table

/-! ## Reading -/

theorem distinct_of_scalarOf {lexeme : List Char} {v : Value} (h : scalarOf lexeme = some v) :
    v.Distinct := by
  rw [scalarOf] at h
  split_ifs at h
  · cases h
    exact .boolean _
  · cases h
    exact .boolean _
  · split at h
    · cases h
      exact .dateTime _
    · split at h
      · cases h
        exact .float _
      · obtain ⟨n, -, rfl⟩ := Option.map_eq_some_iff.mp h
        exact .integer n

/-- The value of an inline table. -/
theorem distinct_of_inline {pairs : List (List String × Value)} {v : Value} {cs rest : List Char}
    (hpairs : ∀ p ∈ pairs, p.2.Distinct)
    (h : ((Table.addPairs [] pairs).bind fun t => some (.table (Table.finishEntries t), cs)) =
      some (v, rest)) : v.Distinct := by
  obtain ⟨t, ht, h⟩ := Option.bind_eq_some_iff.mp h
  cases h
  exact (Table.distinct_nil.addPairs hpairs ht).finish

/-- What the loops of the reader give with some fuel has no key twice. -/
structure DistinctWith (fuel : Nat) : Prop where
  /-- values -/
  value : ∀ depth cs v rest, readValue fuel depth cs = some (v, rest) → v.Distinct
  /-- items of arrays -/
  items : ∀ depth cs items rest, readItems fuel depth cs = some (items, rest) →
    ∀ item ∈ items, item.Distinct
  /-- pairs of inline tables -/
  pairs : ∀ depth cs pairs rest, readPairs fuel depth cs = some (pairs, rest) →
    ∀ p ∈ pairs, p.2.Distinct

namespace DistinctWith

variable {n depth : Nat} {cs rest : List Char}

theorem value_succ (hn : DistinctWith n) {v : Value}
    (h : readValue (n + 1) depth cs = some (v, rest)) : v.Distinct := by
  rw [readValue.eq_def] at h
  dsimp only at h
  split at h
  · cases h
  · -- an array
    split at h
    · cases h
    · obtain ⟨⟨items, more⟩, hread, h⟩ := Option.bind_eq_some_iff.mp h
      cases h
      exact .array (hn.items _ _ _ _ hread)
  · -- an inline table
    split at h
    · cases h
    · split at h
      · exact distinct_of_inline (List.forall_mem_nil _) h
      · obtain ⟨⟨pairs, more⟩, hread, h⟩ := Option.bind_eq_some_iff.mp h
        exact distinct_of_inline (hn.pairs _ _ _ _ hread) h
  · -- a text or another single value
    split at h
    · obtain ⟨_, -, h⟩ := Option.map_eq_some_iff.mp h
      cases h
      exact .string _
    · obtain ⟨_, hscalar, h⟩ := Option.map_eq_some_iff.mp h
      cases h
      exact distinct_of_scalarOf hscalar

theorem items_succ (hn : DistinctWith n) {items : List Value}
    (h : readItems (n + 1) depth cs = some (items, rest)) : ∀ item ∈ items, item.Distinct := by
  rw [readItems] at h
  dsimp only at h
  split at h
  · cases h
    exact nofun
  · obtain ⟨⟨item, more⟩, hitem, h⟩ := Option.bind_eq_some_iff.mp h
    have hfirst := hn.value _ _ _ _ hitem
    dsimp only at h
    split at h
    · obtain ⟨⟨items', more'⟩, hmore, h⟩ := Option.bind_eq_some_iff.mp h
      cases h
      exact List.forall_mem_cons.mpr ⟨hfirst, hn.items _ _ _ _ hmore⟩
    · cases h
      exact List.forall_mem_singleton.mpr hfirst
    · cases h

theorem pairs_succ (hn : DistinctWith n) {pairs : List (List String × Value)}
    (h : readPairs (n + 1) depth cs = some (pairs, rest)) : ∀ p ∈ pairs, p.2.Distinct := by
  rw [readPairs] at h
  obtain ⟨⟨path, more⟩, -, h⟩ := Option.bind_eq_some_iff.mp h
  obtain ⟨more, -, h⟩ := Option.bind_eq_some_iff.mp h
  obtain ⟨⟨v, more⟩, hv, h⟩ := Option.bind_eq_some_iff.mp h
  have hfirst := hn.value _ _ _ _ hv
  dsimp only at h
  split at h
  · obtain ⟨⟨pairs', more'⟩, hmore, h⟩ := Option.bind_eq_some_iff.mp h
    cases h
    exact List.forall_mem_cons.mpr ⟨hfirst, hn.pairs _ _ _ _ hmore⟩
  · cases h
    exact List.forall_mem_singleton.mpr hfirst
  · cases h

end DistinctWith

/-- Whatever the fuel, the loops of the reader give nothing with a key twice. -/
theorem distinctWith (fuel : Nat) : DistinctWith fuel := by
  induction fuel with
  | zero => exact ⟨nofun, nofun, nofun⟩
  | succ n ih =>
    exact {
      value := fun _ _ _ _ => ih.value_succ
      items := fun _ _ _ _ => ih.items_succ
      pairs := fun _ _ _ _ => ih.pairs_succ }

/-- The value of a line has no key twice. -/
def Line.Distinct : Line → Prop
  | .pair _ v => v.Distinct
  | .header .. => True

theorem distinct_of_readPair {cs rest : List Char} {line : Line}
    (h : readPair cs = some (line, rest)) : line.Distinct := by
  obtain ⟨⟨path, more⟩, -, h⟩ := Option.bind_eq_some_iff.mp h
  obtain ⟨more, -, h⟩ := Option.bind_eq_some_iff.mp h
  obtain ⟨⟨v, more⟩, hv, h⟩ := Option.bind_eq_some_iff.mp h
  cases h
  exact (distinctWith _).value _ _ _ _ hv

theorem distinct_of_readHeader {cs rest : List Char} {line : Line}
    (h : readHeader cs = some (line, rest)) : line.Distinct := by
  rw [readHeader.eq_def] at h
  split at h
  · obtain ⟨⟨path, more⟩, -, h⟩ := Option.bind_eq_some_iff.mp h
    obtain ⟨more, -, h⟩ := Option.bind_eq_some_iff.mp h
    obtain ⟨more, -, h⟩ := Option.bind_eq_some_iff.mp h
    cases h
    trivial
  · obtain ⟨⟨path, more⟩, -, h⟩ := Option.bind_eq_some_iff.mp h
    obtain ⟨more, -, h⟩ := Option.bind_eq_some_iff.mp h
    cases h
    trivial
  · cases h

theorem distinct_of_readLines {n : Nat} {cs : List Char} {lines : List Line}
    (h : readLines n cs = some lines) : ∀ line ∈ lines, line.Distinct := by
  induction n generalizing cs lines with
  | zero => cases h
  | succ n ih =>
    rw [readLines] at h
    dsimp only at h
    split at h
    · cases h
      exact nofun
    · split at h
      · cases h
        exact nofun
      · have hbehind {line : Line} {more : List Char} (hline : line.Distinct)
            (h : (endLine more).bind (fun rest => (readLines n rest).bind fun lines =>
              some (line :: lines)) = some lines) : ∀ line ∈ lines, line.Distinct := by
          obtain ⟨rest, -, h⟩ := Option.bind_eq_some_iff.mp h
          obtain ⟨lines', hlines', h⟩ := Option.bind_eq_some_iff.mp h
          cases h
          exact List.forall_mem_cons.mpr ⟨hline, ih hlines'⟩
        split at h
        · obtain ⟨⟨line, more⟩, hline, h⟩ := Option.bind_eq_some_iff.mp h
          exact hbehind (distinct_of_readHeader hline) h
        · obtain ⟨⟨line, more⟩, hline, h⟩ := Option.bind_eq_some_iff.mp h
          exact hbehind (distinct_of_readPair hline) h

theorem distinct_leadingPairs {lines : List Line} (h : ∀ line ∈ lines, line.Distinct) :
    ∀ p ∈ leadingPairs lines, p.2.Distinct := by
  induction lines with
  | nil => exact nofun
  | cons line rest ih =>
    rw [List.forall_mem_cons] at h
    cases line with
    | pair path v => exact List.forall_mem_cons.mpr ⟨h.1, ih h.2⟩
    | header kind path => exact nofun

theorem distinct_addSections {t t' : Table} {lines : List Line}
    (hlines : ∀ line ∈ lines, line.Distinct) (ht : t.Distinct)
    (h : addSections t lines = some t') : t'.Distinct := by
  induction lines generalizing t with
  | nil =>
    cases h
    exact ht
  | cons line rest ih =>
    rw [List.forall_mem_cons] at hlines
    cases line with
    | pair path v => exact ih hlines.2 ht h
    | header kind path =>
      obtain ⟨next, hnext, h⟩ := Option.bind_eq_some_iff.mp h
      exact ih hlines.2 (ht.addSection (distinct_leadingPairs hlines.2) hnext) h

/-- **A document that is read has no key twice**, in no table at any depth. -/
theorem distinct_of_read {text : String} {document : Entries} (h : read text = some document) :
    (Value.table document).Distinct := by
  obtain ⟨lines, hlines, h⟩ := Option.bind_eq_some_iff.mp h
  obtain ⟨top, htop, h⟩ := Option.bind_eq_some_iff.mp h
  obtain ⟨t, ht, h⟩ := Option.bind_eq_some_iff.mp h
  cases h
  have hdistinct := distinct_of_readLines hlines
  have htop' := Table.distinct_nil.addPairs (distinct_leadingPairs hdistinct) htop
  exact (distinct_addSections hdistinct htop' ht).finish

end Checkup.Toml
