import Mathlib.Algebra.BigOperators.Group.List.Basic
import Mathlib.Algebra.Order.BigOperators.Group.List
import Gummy.Lib.ByteMem
import Gummy.Lib.CWord

/-!
The initrd: what `make-initrd` writes and `initrd.c` reads.

The writer lays out a header, one record for each directory and file, and the contents
of the files.  The reader walks the records in memory.  `initrd_reads_what_was_written`
says that the reader gets back the list of entries that the writer was given.
-/

namespace Gummy

open CWord

/-! ### The writer -/

/-- `INITRD_MAGIC`, and `MAGIC` in the script -/
abbrev initrdMagic : ℕ := 0x47554D4D

/-- `VERSION` -/
abbrev initrdVersion : ℕ := 1

/-- `sizeof(initrd_header_t)`, and `HEADER_SIZE` in the script -/
abbrev initrdHeaderSize : ℕ := 16

/-- `sizeof(initrd_entry_t)`, and `ENTRY_SIZE` in the script -/
abbrev initrdEntrySize : ℕ := 20

/-- `TYPE_DIRECTORY` or `TYPE_FILE`, with the contents of the file. -/
inductive InitrdNode
  | directory
  | file (contents : List UInt8)

namespace InitrdNode

def type : InitrdNode → ℕ
  | directory => 1
  | file _ => 2

/-- `source.read()`, nothing for a directory. -/
def contents : InitrdNode → List UInt8
  | directory => []
  | file c => c

end InitrdNode

/-- A directory or a file: the mode is a word, and a path is not empty and has no zero byte
in it. -/
structure InitrdSource where
  name : List UInt8
  permissions : ℕ
  node : InitrdNode
  permissions_lt : permissions < 2 ^ 32
  name_ne_nil : name ≠ []
  zero_not_mem : 0 ∉ name

/-- An element of `entries`, once its offset is known. -/
structure InitrdEntry where
  source : InitrdSource
  offset : ℕ

namespace InitrdEntry

/-- `entry["name"]`, with the zero byte at its end -/
def name (e : InitrdEntry) : List UInt8 := e.source.name ++ [0]

/-- `entry["size"]` -/
def size (e : InitrdEntry) : ℕ := e.source.node.contents.length

/-- The record and the name that follows it in the table. -/
def bytes (e : InitrdEntry) : List UInt8 :=
  ByteMem.wordBytes e.source.node.type ++ ByteMem.wordBytes e.source.permissions ++
    ByteMem.wordBytes e.name.length ++ ByteMem.wordBytes e.offset ++ ByteMem.wordBytes e.size ++
    e.name

end InitrdEntry

/-- `table_size` -/
def tableSize (sources : List InitrdSource) : ℕ :=
  (sources.map fun s => initrdEntrySize + (s.name.length + 1)).sum

/-- The loop that assigns the offsets, from `current_offset` on. -/
def assignOffsets : ℕ → List InitrdSource → List InitrdEntry
  | _, [] => []
  | currentOffset, s :: rest =>
    match s.node with
    | .directory => ⟨s, 0⟩ :: assignOffsets currentOffset rest
    | .file c => ⟨s, currentOffset⟩ :: assignOffsets (currentOffset + c.length) rest

/-- What `main` writes to the output file. -/
def makeInitrd (sources : List InitrdSource) : List UInt8 :=
  let dataOffset := initrdHeaderSize + tableSize sources
  let entries := assignOffsets dataOffset sources
  ByteMem.wordBytes initrdMagic ++ ByteMem.wordBytes initrdVersion ++
    ByteMem.wordBytes entries.length ++ ByteMem.wordBytes dataOffset ++
    entries.flatMap InitrdEntry.bytes ++ sources.flatMap (·.node.contents)

/-! ### The reader -/

/-- `initrd_t`: addresses, `0` for `NULL`. -/
structure Initrd where
  base : ℕ
  header : ℕ
  entries : ℕ
  data : ℕ

/-- `initrd_create`: what `*out` is afterwards. -/
def initrdCreate (m : ByteMem) (out : Initrd) (data : ℕ) : Initrd :=
  if data = 0 then out
  else
    { base := data, header := data, entries := u32 (data + initrdHeaderSize)
      data := u32 (data + m.read32 (data + 12)) }

/-- `initrd_check`: nonzero if invalid. -/
def initrdCheck (m : ByteMem) (i : Initrd) : ℕ :=
  if i.header = 0 ∨ i.entries = 0 then 1
  else if m.read32 i.header = initrdMagic then 0 else 1

/-- `entry->type` -/
def entryType (m : ByteMem) (entry : ℕ) : ℕ := m.read32 entry

/-- `entry->permissions` -/
def entryPermissions (m : ByteMem) (entry : ℕ) : ℕ := m.read32 (entry + 4)

/-- `entry->name_size` -/
def entryNameSize (m : ByteMem) (entry : ℕ) : ℕ := m.read32 (entry + 8)

/-- `entry->offset` -/
def entryOffset (m : ByteMem) (entry : ℕ) : ℕ := m.read32 (entry + 12)

/-- The address of the name. -/
def entryName (entry : ℕ) : ℕ := entry + initrdEntrySize

/-- `header->entry_count` -/
def entryCount (m : ByteMem) (i : Initrd) : ℕ := m.read32 (i.header + 8)

/-- The loop of `initrd_get_entry`: `n` entries further. -/
def nextEntries (m : ByteMem) : ℕ → ℕ → ℕ
  | 0, entry => entry
  | n + 1, entry => nextEntries m n (u32 (entry + entryNameSize m entry + initrdEntrySize))

/-- `initrd_get_entry`: the address of the entry, `none` for `NULL`. -/
def initrdGetEntry (m : ByteMem) (i : Initrd) (n : ℕ) : Option ℕ :=
  if initrdCheck m i ≠ 0 then none
  else if n ≥ entryCount m i then none
  else some (nextEntries m n i.entries)

/-- `initrd_find_entry`, for the bytes of `path` before its zero byte. -/
def initrdFindEntry (m : ByteMem) (i : Initrd) (path : List UInt8) : Option ℕ :=
  if initrdCheck m i ≠ 0 then none
  else if path.length = 0 then none
  else
    (List.range (entryCount m i)).findSome? fun n =>
      match initrdGetEntry m i n with
      | none => none
      | some entry =>
        if entryNameSize m entry ≠ u32 (path.length + 1) then none
        else if m.bytes (entryName entry) path.length = path then some entry
        else none

/-- `initrd_get_len` -/
def initrdGetLen (m : ByteMem) (entry : ℕ) : ℕ := m.read32 (entry + 16)

/-- `initrd_get_data` of an entry: `none` for `NULL`. -/
def initrdGetData (m : ByteMem) (i : Initrd) (entry : ℕ) : Option ℕ :=
  if initrdCheck m i ≠ 0 then none else some (u32 (i.base + entryOffset m entry))

/-! ### The layout -/

namespace InitrdEntry

lemma length_name (e : InitrdEntry) : e.name.length = e.source.name.length + 1 := by
  simp [name]

lemma length_bytes (e : InitrdEntry) :
    e.bytes.length = initrdEntrySize + (e.source.name.length + 1) := by
  simp only [bytes, List.length_append, ByteMem.length_wordBytes, length_name, initrdEntrySize]

/-- What the reader finds where a record lies. -/
lemma fields {e : InitrdEntry} {m : ByteMem} {a : ℕ} (h : m.Holds a e.bytes)
    (hname : e.name.length < 2 ^ 32) (hoffset : e.offset < 2 ^ 32) (hsize : e.size < 2 ^ 32) :
    entryType m a = e.source.node.type ∧ entryPermissions m a = e.source.permissions ∧
      entryNameSize m a = e.name.length ∧ entryOffset m a = e.offset ∧
      initrdGetLen m a = e.size ∧ m.Holds (entryName a) e.name := by
  have htype : e.source.node.type < 2 ^ 32 := by
    cases e.source.node <;> simp [InitrdNode.type]
  simp only [bytes, ByteMem.holds_append, List.length_append, ByteMem.length_wordBytes] at h
  obtain ⟨⟨⟨⟨⟨h0, h1⟩, h2⟩, h3⟩, h4⟩, h5⟩ := h
  exact ⟨h0.read32 htype, h1.read32 e.source.permissions_lt, h2.read32 hname,
    h3.read32 hoffset, h4.read32 hsize, h5⟩

end InitrdEntry

lemma length_assignOffsets (o : ℕ) (sources : List InitrdSource) :
    (assignOffsets o sources).length = sources.length := by
  induction sources generalizing o with
  | nil => rfl
  | cons s rest ih =>
    unfold assignOffsets
    split <;> simp [ih]

/-- The offset of a file is where the contents of the files before it end. -/
lemma getElem?_assignOffsets (o : ℕ) {n : ℕ} {sources : List InitrdSource} {s : InitrdSource}
    (h : sources[n]? = some s) :
    ∃ offset, (assignOffsets o sources)[n]? = some ⟨s, offset⟩ ∧
      (s.node = .directory ∧ offset = 0 ∨
        offset = o + ((sources.take n).flatMap (·.node.contents)).length) := by
  induction sources generalizing o n with
  | nil => simp at h
  | cons s' rest ih =>
    cases n with
    | zero =>
      obtain rfl : s' = s := by simpa using h
      unfold assignOffsets
      cases hn : s'.node with
      | directory => exact ⟨0, rfl, Or.inl ⟨rfl, rfl⟩⟩
      | file c => exact ⟨o, rfl, Or.inr rfl⟩
    | succ n =>
      rw [List.getElem?_cons_succ] at h
      unfold assignOffsets
      cases hn : s'.node with
      | directory =>
        obtain ⟨offset, hget, ho⟩ := ih o h
        refine ⟨offset, hget, ho.imp_right fun ho => ?_⟩
        simp [ho, hn, InitrdNode.contents]
      | file c =>
        obtain ⟨offset, hget, ho⟩ := ih (o + c.length) h
        refine ⟨offset, hget, ho.imp_right fun ho => ?_⟩
        simp [ho, hn, InitrdNode.contents, Nat.add_assoc]

lemma source_of_mem_assignOffsets (o : ℕ) (sources : List InitrdSource) :
    (assignOffsets o sources).map (·.source) = sources := by
  induction sources generalizing o with
  | nil => rfl
  | cons s rest ih =>
    unfold assignOffsets
    split <;> simp [ih]

lemma length_table (o : ℕ) (sources : List InitrdSource) :
    ((assignOffsets o sources).flatMap InitrdEntry.bytes).length = tableSize sources := by
  have hlen : (assignOffsets o sources).map (fun e => e.bytes.length) =
      sources.map fun s => initrdEntrySize + (s.name.length + 1) := by
    conv_rhs => rw [← source_of_mem_assignOffsets o sources]
    rw [List.map_map]
    exact List.map_congr_left fun e _ => e.length_bytes
  rw [List.length_flatMap, tableSize, hlen]

/-! ### The walk -/

lemma nextEntries_holds {m : ByteMem} {es : List InitrdEntry} {n a : ℕ} {e : InitrdEntry}
    (hn : es[n]? = some e) (hm : m.Holds a (es.flatMap InitrdEntry.bytes))
    (hend : a + (es.flatMap InitrdEntry.bytes).length < 2 ^ 32) :
    m.Holds (nextEntries m n a) e.bytes := by
  induction n generalizing es a with
  | zero =>
    cases es with
    | nil => simp at hn
    | cons e' es =>
      obtain rfl : e' = e := by simpa using hn
      rw [List.flatMap_cons, ByteMem.holds_append] at hm
      exact hm.1
  | succ n ih =>
    cases es with
    | nil => simp at hn
    | cons e' es =>
      rw [List.flatMap_cons, ByteMem.holds_append] at hm
      rw [List.flatMap_cons, List.length_append] at hend
      have hlen := e'.length_bytes
      have hname := e'.length_name
      have hsize : entryNameSize m a = e'.name.length := by
        have hm1 := hm.1
        simp only [InitrdEntry.bytes, ByteMem.holds_append, List.length_append,
          ByteMem.length_wordBytes] at hm1
        exact hm1.1.1.1.2.read32 (by omega)
      have hnext : u32 (a + entryNameSize m a + initrdEntrySize) = a + e'.bytes.length := by
        rw [hsize, u32_of_lt (by omega)]
        omega
      rw [nextEntries, hnext]
      exact ih (by simpa using hn) hm.2 (by omega)

/-! ### The image in memory -/

/-- `make-initrd`'s image for `sources` lies at `base`, below the end of memory. -/
structure InitrdAt (m : ByteMem) (base : ℕ) (sources : List InitrdSource) : Prop where
  base_pos : 0 < base
  stop_lt : base + (makeInitrd sources).length < 2 ^ 32
  holds : m.Holds base (makeInitrd sources)

namespace InitrdAt

variable {m : ByteMem} {base : ℕ} {sources : List InitrdSource}

lemma length_makeInitrd (sources : List InitrdSource) : (makeInitrd sources).length =
    initrdHeaderSize + tableSize sources + (sources.flatMap (·.node.contents)).length := by
  simp only [makeInitrd, List.length_append, ByteMem.length_wordBytes, length_table,
    initrdHeaderSize]

/-- The parts of the image. -/
lemma parts (h : InitrdAt m base sources) :
    m.read32 base = initrdMagic ∧ m.read32 (base + 8) = sources.length ∧
      m.Holds (base + initrdHeaderSize) ((assignOffsets (initrdHeaderSize + tableSize sources)
        sources).flatMap InitrdEntry.bytes) ∧
      m.Holds (base + (initrdHeaderSize + tableSize sources))
        (sources.flatMap (·.node.contents)) := by
  have hstop := h.stop_lt
  have hm := h.holds
  have hcount : sources.length ≤ tableSize sources := by
    unfold tableSize
    have hle := List.length_le_sum_of_one_le
      (sources.map fun s => initrdEntrySize + (s.name.length + 1)) fun x hx => by
        obtain ⟨s, -, rfl⟩ := List.mem_map.1 hx
        omega
    rwa [List.length_map] at hle
  rw [length_makeInitrd] at hstop
  simp only [makeInitrd, ByteMem.holds_append, List.length_append, ByteMem.length_wordBytes,
    length_table, length_assignOffsets] at hm
  obtain ⟨⟨⟨⟨⟨hmagic, -⟩, hentries⟩, -⟩, htable⟩, hdata⟩ := hm
  exact ⟨hmagic.read32 (by norm_num), hentries.read32 (by omega), htable, by
    simpa [initrdHeaderSize, Nat.add_assoc] using hdata⟩

/-- A name fits in the table. -/
lemma length_name_lt (h : InitrdAt m base sources) {n : ℕ} {s : InitrdSource}
    (hn : sources[n]? = some s) : base + initrdHeaderSize + (s.name.length + 1) < 2 ^ 32 := by
  have hstop := h.stop_lt
  rw [length_makeInitrd] at hstop
  have hmem : initrdEntrySize + (s.name.length + 1) ∈
      sources.map fun s => initrdEntrySize + (s.name.length + 1) :=
    List.mem_map_of_mem (List.mem_of_getElem? hn)
  have hle : initrdEntrySize + (s.name.length + 1) ≤ tableSize sources :=
    List.single_le_sum (by simp) _ hmem
  omega

variable {out : Initrd}

lemma create_eq (h : InitrdAt m base sources) : initrdCreate m out base =
    ⟨base, base, base + initrdHeaderSize, u32 (base + m.read32 (base + 12))⟩ := by
  have hstop := h.stop_lt
  rw [length_makeInitrd] at hstop
  rw [initrdCreate, if_neg h.base_pos.ne', u32_of_lt (by omega)]

lemma check_eq (h : InitrdAt m base sources) : initrdCheck m (initrdCreate m out base) = 0 := by
  rw [h.create_eq, initrdCheck]
  dsimp only
  rw [if_neg (by have := h.base_pos; omega), if_pos h.parts.1]

lemma count_eq (h : InitrdAt m base sources) :
    entryCount m (initrdCreate m out base) = sources.length := by
  rw [h.create_eq, entryCount]
  exact h.parts.2.1

lemma getEntry_none (h : InitrdAt m base sources) {n : ℕ} (hn : sources.length ≤ n) :
    initrdGetEntry m (initrdCreate m out base) n = none := by
  rw [initrdGetEntry, h.check_eq, if_neg (by simp), h.count_eq, if_pos hn]

/-- The record of the entry with index `n`. -/
lemma getEntry_some (h : InitrdAt m base sources) (out : Initrd) {n : ℕ} {s : InitrdSource}
    (hn : sources[n]? = some s) :
    ∃ (a : ℕ) (e : InitrdEntry),
      initrdGetEntry m (initrdCreate m out base) n = some a ∧ e.source = s ∧
      entryType m a = s.node.type ∧ entryPermissions m a = s.permissions ∧
      entryNameSize m a = s.name.length + 1 ∧ entryOffset m a = e.offset ∧
      initrdGetLen m a = s.node.contents.length ∧ m.Holds (entryName a) (s.name ++ [0]) ∧
      (s.node = .directory ∨ m.Holds (base + e.offset) s.node.contents ∧
        base + e.offset + s.node.contents.length < 2 ^ 32) := by
  obtain ⟨hlt, rfl⟩ := List.getElem?_eq_some_iff.1 hn
  obtain ⟨offset, hget, hoffset⟩ := getElem?_assignOffsets (initrdHeaderSize + tableSize sources) hn
  obtain ⟨-, -, htable, hdata⟩ := h.parts
  have hstop := h.stop_lt
  rw [length_makeInitrd] at hstop
  have hrecord := nextEntries_holds hget htable (by rw [length_table]; omega)
  -- the contents of the file lie between those of the others
  have hsplit : sources.flatMap (·.node.contents) =
      (sources.take n).flatMap (·.node.contents) ++ (sources[n].node.contents ++
        (sources.drop (n + 1)).flatMap (·.node.contents)) := by
    conv_lhs => rw [← List.take_append_drop n sources]
    rw [List.flatMap_append, List.drop_eq_getElem_cons hlt, List.flatMap_cons]
  have hlen := congrArg List.length hsplit
  simp only [List.length_append] at hlen
  have hname := h.length_name_lt hn
  have hoffset_le : offset ≤ initrdHeaderSize + tableSize sources +
      ((sources.take n).flatMap (·.node.contents)).length := by
    obtain ⟨-, rfl⟩ | rfl := hoffset
    · exact Nat.zero_le _
    · exact le_rfl
  obtain ⟨htype, hperm, hsize, hoff, hgetLen, hbytes⟩ := InitrdEntry.fields hrecord
    (by rw [InitrdEntry.length_name]; dsimp only; omega) (by dsimp only; omega)
    (by unfold InitrdEntry.size; dsimp only; omega)
  refine ⟨_, ⟨sources[n], offset⟩, ?_, rfl, htype, hperm, hsize.trans (InitrdEntry.length_name _),
    hoff, hgetLen, hbytes, ?_⟩
  · rw [initrdGetEntry, h.check_eq, if_neg (by simp), h.count_eq, if_neg (by omega), h.create_eq]
  · obtain ⟨hdir, -⟩ | rfl := hoffset
    · exact Or.inl hdir
    · refine Or.inr ⟨?_, by dsimp only; omega⟩
      rw [hsplit, ByteMem.holds_append, ByteMem.holds_append] at hdata
      rw [← Nat.add_assoc]
      exact hdata.2.1

/-- What `initrd_find_entry` does with one entry. -/
lemma matches_iff (h : InitrdAt m base sources) {n : ℕ} {s : InitrdSource}
    (hn : sources[n]? = some s) {path : List UInt8} (hpath : path.length + 1 < 2 ^ 32) {a : ℕ}
    (ha : initrdGetEntry m (initrdCreate m out base) n = some a) :
    (if entryNameSize m a ≠ u32 (path.length + 1) then none
      else if m.bytes (entryName a) path.length = path then some a else none) =
      if s.name = path then some a else none := by
  obtain ⟨a', e, ha', -, -, -, hsize, -, -, hname, -⟩ := h.getEntry_some out hn
  obtain rfl := Option.some.inj (ha.symm.trans ha')
  rw [hsize, u32_of_lt hpath]
  have hbytes := (ByteMem.holds_append.1 hname).1
  by_cases hlen : s.name.length = path.length
  · rw [if_neg (by simp [hlen]), ← hlen, hbytes]
  · rw [if_pos (by omega), if_neg fun heq => hlen (congrArg List.length heq)]

lemma find_eq (h : InitrdAt m base sources) {path : List UInt8} (hne : path ≠ []) :
    initrdFindEntry m (initrdCreate m out base) path =
      (List.range sources.length).findSome? fun n =>
        match initrdGetEntry m (initrdCreate m out base) n with
        | none => none
        | some entry =>
          if entryNameSize m entry ≠ u32 (path.length + 1) then none
          else if m.bytes (entryName entry) path.length = path then some entry
          else none := by
  rw [initrdFindEntry, h.check_eq, if_neg (by simp), if_neg (by simpa using hne), h.count_eq]

/-- The first entry with the name is the only one. -/
lemma find_eq_some (h : InitrdAt m base sources) {n : ℕ} {s : InitrdSource}
    (hn : sources[n]? = some s) (hnames : (sources.map (·.name)).Nodup) {a : ℕ}
    (ha : initrdGetEntry m (initrdCreate m out base) n = some a) :
    initrdFindEntry m (initrdCreate m out base) s.name = some a := by
  obtain ⟨hlt, rfl⟩ := List.getElem?_eq_some_iff.1 hn
  have hpath : sources[n].name.length + 1 < 2 ^ 32 :=
    (Nat.le_add_left _ _).trans_lt (h.length_name_lt hn)
  have hsplit : List.range sources.length =
      List.range n ++ n :: (List.range sources.length).drop (n + 1) := by
    conv_lhs => rw [← List.take_append_drop n (List.range sources.length)]
    rw [List.take_range, Nat.min_eq_left hlt.le, List.drop_eq_getElem_cons (by simpa using hlt),
      List.getElem_range]
  rw [h.find_eq sources[n].name_ne_nil]
  refine List.findSome?_eq_some_iff.2 ⟨List.range n, n, _, hsplit, ?_, fun i hi => ?_⟩
  · rw [ha]
    exact (h.matches_iff hn hpath ha).trans (if_pos rfl)
  · have hi' := List.mem_range.1 hi
    have hget := List.getElem?_eq_getElem (hi'.trans hlt)
    obtain ⟨a', -, ha', -⟩ := h.getEntry_some out hget
    rw [ha']
    have hdistinct := List.pairwise_iff_getElem.1 (List.pairwise_map.1 hnames)
    exact (h.matches_iff hget hpath ha').trans (if_neg (hdistinct i n _ hlt hi'))

end InitrdAt

/-- **The reader gets back what the writer was given.**  On the image of any list of entries
with distinct names, the check succeeds; entry `n` is the `n`-th of the list, with its type,
permissions, name and size, and there are no others; looking up a name gives its entry, and
looking up anything else gives none; and the data of a file are its contents. -/
theorem initrd_reads_what_was_written {m : ByteMem} {base : ℕ} {sources : List InitrdSource}
    (h : InitrdAt m base sources) (hnames : (sources.map (·.name)).Nodup) (out : Initrd) :
    initrdCheck m (initrdCreate m out base) = 0 ∧
    (∀ n, sources.length ≤ n → initrdGetEntry m (initrdCreate m out base) n = none) ∧
    (∀ n s, sources[n]? = some s →
      ∃ a, initrdGetEntry m (initrdCreate m out base) n = some a ∧
        entryType m a = s.node.type ∧ entryPermissions m a = s.permissions ∧
        m.bytes (entryName a) (entryNameSize m a) = s.name ++ [0] ∧
        initrdGetLen m a = s.node.contents.length ∧
        initrdFindEntry m (initrdCreate m out base) s.name = some a ∧
        ∀ contents, s.node = .file contents →
          ∃ d, initrdGetData m (initrdCreate m out base) a = some d ∧
            m.bytes d (initrdGetLen m a) = contents) ∧
    ∀ path, path.length + 1 < 2 ^ 32 → (∀ s ∈ sources, s.name ≠ path) →
      initrdFindEntry m (initrdCreate m out base) path = none := by
  refine ⟨h.check_eq, fun n hn => h.getEntry_none hn, fun n s hn => ?_, fun path hpath hno => ?_⟩
  · obtain ⟨a, e, ha, -, htype, hperm, hsize, hoff, hlen, hname, hdata⟩ :=
      h.getEntry_some out hn
    refine ⟨a, ha, htype, hperm, ?_, hlen, ?_, fun contents hfile => ?_⟩
    · rw [hsize]
      simpa [ByteMem.Holds] using hname
    · exact h.find_eq_some hn hnames ha
    · rw [hfile] at hdata
      obtain ⟨hcontents, hlt⟩ := hdata.resolve_left (by simp)
      refine ⟨base + e.offset, ?_, ?_⟩
      · rw [initrdGetData, h.check_eq, if_neg (by simp), hoff, h.create_eq]
        dsimp only
        rw [u32_of_lt (by omega)]
      · rw [hlen, hfile]
        exact hcontents
  · by_cases hne : path = []
    · rw [initrdFindEntry, if_neg (by simp [h.check_eq]), if_pos (by simp [hne])]
    · rw [h.find_eq hne, List.findSome?_eq_none_iff]
      intro n hn
      have hget := List.getElem?_eq_getElem (List.mem_range.1 hn)
      obtain ⟨a, -, ha, -⟩ := h.getEntry_some out hget
      rw [ha]
      exact (h.matches_iff hget hpath ha).trans (if_neg (hno _ (List.getElem_mem _)))

/-- A directory `b` and a file `b/c`. -/
def binSources : List InitrdSource :=
  [⟨[98], 0o755, .directory, by decide, by decide, by decide⟩,
    ⟨[98, 47, 99], 0o644, .file [1, 2, 3], by decide, by decide, by decide⟩]

/-- A memory with their image in it. -/
def binMemory : ByteMem := ByteMem.store (fun _ => 0) 4096 (makeInitrd binSources)

theorem initrd_reads_what_was_written_bin :
    ∃ a d, initrdFindEntry binMemory (initrdCreate binMemory ⟨0, 0, 0, 0⟩ 4096) [98, 47, 99] =
        some a ∧
      initrdGetData binMemory (initrdCreate binMemory ⟨0, 0, 0, 0⟩ 4096) a = some d ∧
      binMemory.bytes d (initrdGetLen binMemory a) = [1, 2, 3] := by
  have hat : InitrdAt binMemory 4096 binSources :=
    ⟨by decide, by decide, ByteMem.bytes_store_same ..⟩
  obtain ⟨-, -, hget, -⟩ := initrd_reads_what_was_written hat (by decide) ⟨0, 0, 0, 0⟩
  obtain ⟨a, -, -, -, -, -, hfind, hdata⟩ := hget 1 _ rfl
  obtain ⟨d, hd, hbytes⟩ := hdata _ rfl
  exact ⟨a, d, hfind, hd, hbytes⟩

end Gummy
