import Pintos.Analysis.OpenInodes
import Pintos.Lib.Slots

/-!
# Directories: `dir_add`, `dir_remove`, `dir_lookup` and `dir_readdir`

What a directory is for (`DirSpec`): a map from names to the sectors `dir_add` gave them,
with room for as many names as the directory has entries. `dir_add` puts in a valid name that
is not there while there is room, `dir_remove` takes a name out, and `dir_lookup` finds the
sector of a name.

The code keeps the map in the slots of the directory's data: an entry in use holds a name
and a sector, a free entry nothing (`DirEntry.named`). `DirHolds` says that the entries of an
open directory hold the spec's names, up to their order. `dir_add` writes into the first free
slot, which adds its name (`Slots.filterMap_set_perm`); when there is none it writes at the
end of the directory, which cannot grow, and fails. `dir_remove` frees the slot of the name.
`lookup` searches the slots in order, and since the names in use are distinct it finds what
the map finds (`lookup_eq_spec`). Every run of calls on an open directory keeps `DirHolds`
and gives the replies the spec gives (`runDir_holds`), and `dir_readdir`, called from
position 0 until it fails, yields every name in use once (`readdirAll_eq`). `DirBehaves`
collects what a state reached this way does, stated on the code's entries.

`dir_lookup` and `dir_remove` open the inode of the entry; with the objects balanced
(`Bal`), that keeps the directory's own inode open, on its sector, and accepting writes,
whichever inode the entry names.
-/

set_option autoImplicit false

namespace Pintos.Filesys

open Heap Slots

/-! ## What a directory is for -/

/-- A name `dir_add` accepts: not empty, and at most `NAME_MAX` bytes. -/
def ValidName (name : List UInt8) : Prop := name ≠ [] ∧ name.length ≤ NAME_MAX

instance (name : List UInt8) : Decidable (ValidName name) :=
  inferInstanceAs (Decidable (_ ∧ _))

/-- `dir_add`'s test of the name, read the other way. -/
theorem validName_iff (name : List UInt8) :
    ValidName name ↔ ¬(name = [] ∨ name.length > NAME_MAX) := by
  simp [ValidName, not_or]

/-- A directory as a map from names to sectors, with room for `slots` names. -/
structure DirSpec where
  slots : Nat
  names : List (List UInt8 × Nat)
  nodup : (names.map Prod.fst).Nodup
  fits : names.length ≤ slots

namespace DirSpec

/-- A directory of `slots` slots and no names. -/
def empty (slots : Nat) : DirSpec := ⟨slots, [], List.nodup_nil, Nat.zero_le _⟩

def lookup (d : DirSpec) (name : List UInt8) : Option Nat := d.names.lookup name

/-- Adding a name: a valid name not there, while there is room. -/
def add (d : DirSpec) (name : List UInt8) (sector : Nat) : DirSpec × Bool :=
  if h : ValidName name ∧ d.lookup name = none ∧ d.names.length < d.slots then
    (⟨d.slots, (name, sector) :: d.names,
      List.nodup_cons.mpr ⟨(lookup_eq_none_iff_not_mem _ _).mp h.2.1, d.nodup⟩, h.2.2⟩, true)
  else (d, false)

/-- Removing a name that is there. -/
def remove (d : DirSpec) (name : List UInt8) : DirSpec × Bool :=
  if d.lookup name = none then (d, false)
  else
    (⟨d.slots, d.names.filter (·.1 != name), d.nodup.sublist (List.filter_sublist.map _),
      (List.length_filter_le _ _).trans d.fits⟩, true)

/-- An add succeeds exactly for a valid name not there, while there is room. -/
theorem add_snd (d : DirSpec) (name : List UInt8) (sector : Nat) :
    (d.add name sector).2 = true ↔
      ValidName name ∧ d.lookup name = none ∧ d.names.length < d.slots := by
  unfold add
  split_ifs with h
  · exact ⟨fun _ => h, fun _ => rfl⟩
  · simp only [false_iff]
    exact h

/-- After an add that succeeded the name finds the sector it was given; every other name
finds what it found before. -/
theorem lookup_add (d : DirSpec) {name : List UInt8} {sector : Nat}
    (hok : (d.add name sector).2 = true) (q : List UInt8) :
    (d.add name sector).1.lookup q = if q = name then some sector else d.lookup q := by
  have hok' := (add_snd d name sector).mp hok
  unfold add
  rw [dif_pos hok']
  by_cases hq : q = name
  · subst hq
    simp [lookup]
  · simp [lookup, List.lookup_cons, beq_false_of_ne hq, hq]

theorem remove_snd (d : DirSpec) (name : List UInt8) :
    (d.remove name).2 = true ↔ d.lookup name ≠ none := by
  unfold remove
  split_ifs with h <;> simp [h]

/-- After a remove the name finds nothing; every other name finds what it found before. -/
theorem lookup_remove (d : DirSpec) (name q : List UInt8) :
    (d.remove name).1.lookup q = if q = name then none else d.lookup q := by
  unfold remove
  by_cases hq : q = name
  · subst hq
    rw [if_pos rfl]
    split_ifs with h
    · exact h
    · exact lookup_filter_ne_self q d.names
  · rw [if_neg hq]
    split_ifs
    · rfl
    · exact lookup_filter_ne_of_ne hq d.names

end DirSpec

/-- A call on an open directory. -/
inductive DirCall
  | add (name : List UInt8) (sector : Nat)
  | remove (name : List UInt8)
  | lookup (name : List UInt8)
  | readdir
  deriving DecidableEq, Repr

/-- What a call gives back: the success of `dir_add` and `dir_remove`, the sector of the
inode `dir_lookup` opened, or the name `dir_readdir` read. -/
inductive DirReply
  | success (ok : Bool)
  | sector (s : Option Nat)
  | name (n : Option (List UInt8))
  deriving DecidableEq, Repr

/-- The spec's run of calls; it says nothing of what `dir_readdir` reads, which depends on
the order of the slots. -/
def DirSpec.run : DirSpec → List DirCall → DirSpec × List (Option DirReply)
  | d, [] => (d, [])
  | d, .add name sector :: calls =>
      let r := d.add name sector
      let run := r.1.run calls
      (run.1, some (.success r.2) :: run.2)
  | d, .remove name :: calls =>
      let r := d.remove name
      let run := r.1.run calls
      (run.1, some (.success r.2) :: run.2)
  | d, .lookup name :: calls =>
      let run := d.run calls
      (run.1, some (.sector (d.lookup name)) :: run.2)
  | d, .readdir :: calls =>
      let run := d.run calls
      (run.1, none :: run.2)

/-- A run of calls on the directory at `addr`. -/
def FS.runDir (fs : FS) (addr : Nat) : List DirCall → FS × List DirReply
  | [] => (fs, [])
  | .add name sector :: calls =>
      let r := fs.dirAdd addr name sector
      let run := r.1.runDir addr calls
      (run.1, .success r.2 :: run.2)
  | .remove name :: calls =>
      let r := fs.dirRemove addr name
      let run := r.1.runDir addr calls
      (run.1, .success r.2 :: run.2)
  | .lookup name :: calls =>
      let r := fs.dirLookup addr name
      let run := r.1.runDir addr calls
      (run.1, .sector ((r.2.bind r.1.inodeAt).map (·.sector)) :: run.2)
  | .readdir :: calls =>
      let r := fs.dirReaddir addr
      let run := r.1.runDir addr calls
      (run.1, .name r.2 :: run.2)

/-- `dir_readdir` called until it fails, at most `fuel` times: the names it read. -/
def FS.readdirAll (fs : FS) (addr : Nat) : Nat → List (List UInt8)
  | 0 => []
  | fuel + 1 =>
      match fs.dirReaddir addr with
      | (fs', some name) => name :: fs'.readdirAll addr fuel
      | (_, none) => []

/-! ## What the slots hold -/

/-- The name and sector an entry in use holds; a free entry holds nothing. -/
def DirEntry.named (e : DirEntry) : Option (List UInt8 × Nat) :=
  if e.inUse then some (e.name, e.inodeSector) else none

theorem DirEntry.named_eq_none (e : DirEntry) : e.named = none ↔ e.inUse = false := by
  cases h : e.inUse <;> simp [DirEntry.named, h]

section Entries

variable (es : List DirEntry)

theorem map_fst_filterMap_named :
    (es.filterMap DirEntry.named).map Prod.fst = (es.filter (·.inUse)).map (·.name) := by
  induction es with
  | nil => rfl
  | cons e es ih =>
      cases he : e.inUse <;> simp [DirEntry.named, he, ih]

/-- Searching the entries in use for a name finds what the map of the entries finds. -/
theorem find?_named (name : List UInt8) :
    (es.find? fun e => e.inUse && e.name == name).map (·.inodeSector) =
      (es.filterMap DirEntry.named).lookup name := by
  induction es with
  | nil => rfl
  | cons e es ih =>
      cases he : e.inUse
      · simp [DirEntry.named, he, ih]
      · by_cases hn : e.name = name
        · simp [DirEntry.named, he, hn]
        · have hb : (name == e.name) = false := beq_eq_false_iff_ne.mpr (Ne.symm hn)
          simp [DirEntry.named, he, hn, hb, List.lookup_cons, ih]

/-- What `dir_readdir`'s loop reads from slot `slot` on: the name of the first entry in
use, after which the names in use are those past the slot where it stopped. -/
theorem readdirFrom_some {slot : Nat} {name : List UInt8}
    (h : (readdirFrom es slot).2 = some name) :
    slot < (readdirFrom es slot).1 ∧
      name :: ((es.drop ((readdirFrom es slot).1 - slot)).filter (·.inUse)).map (·.name) =
        (es.filter (·.inUse)).map (·.name) := by
  induction es generalizing slot with
  | nil => simp [readdirFrom] at h
  | cons e es ih =>
      by_cases he : e.inUse
      · simp only [readdirFrom, he, if_true, Option.some.injEq] at h ⊢
        subst h
        simp [he]
      · simp only [readdirFrom, he, Bool.false_eq_true, if_false] at h ⊢
        obtain ⟨hlt, heq⟩ := ih h
        refine ⟨by omega, ?_⟩
        rw [show (readdirFrom es (slot + 1)).1 - slot =
            (readdirFrom es (slot + 1)).1 - (slot + 1) + 1 by omega, List.drop_succ_cons, heq]
        simp [he]

/-- When the loop reads nothing, no entry from the slot on is in use. -/
theorem readdirFrom_none {slot : Nat} (h : (readdirFrom es slot).2 = none) :
    es.filter (·.inUse) = [] := by
  induction es generalizing slot with
  | nil => rfl
  | cons e es ih =>
      by_cases he : e.inUse
      · simp [readdirFrom, he] at h
      · simp only [readdirFrom, he, Bool.false_eq_true, if_false] at h
        simp [he, ih h]

/-- The loop stops at the latest past the last entry. -/
theorem readdirFrom_le (slot : Nat) : (readdirFrom es slot).1 ≤ slot + es.length := by
  induction es generalizing slot with
  | nil => simp [readdirFrom]
  | cons e es ih =>
      by_cases he : e.inUse
      · simp [readdirFrom, he]
      · simp only [readdirFrom, he, Bool.false_eq_true, if_false, List.length_cons]
        have := ih (slot + 1)
        omega

end Entries

/-! ## The directory's own inode

What a directory needs of the inode it is open on is its sector, where its entries are, and
its `deny_write_cnt`, which lets `dir_add` and `dir_remove` write. `dirHome` reads the two off
the objects; every call on the directory leaves them as they are. -/

namespace Objs

/-- The sector and `deny_write_cnt` of the inode the directory at `addr` is open on. -/
def dirHome (o : Objs) (addr : Nat) : Option (Nat × Int) :=
  ((o.dirs.lookup addr).bind fun d => o.inodes.lookup d.inode).map
    fun i => (i.sector, i.denyWriteCnt)

/-- Changing inodes in place, with their sector and `deny_write_cnt` kept. -/
theorem dirHome_modify (o : Objs) (addr a : Nat) (f : Inode → Inode)
    (hf : ∀ i, (f i).sector = i.sector ∧ (f i).denyWriteCnt = i.denyWriteCnt) :
    ({ o with inodes := modify o.inodes a f } : Objs).dirHome addr = o.dirHome addr := by
  unfold dirHome
  cases o.dirs.lookup addr with
  | none => rfl
  | some d =>
      simp only [Option.bind_some]
      by_cases hda : d.inode = a
      · rw [hda, lookup_modify_self, Option.map_map]
        congr 1
        funext i
        simp [(hf i).1, (hf i).2]
      · rw [lookup_modify_ne _ hda]

/-- Freeing an inode the directory is not open on. -/
theorem dirHome_free (o : Objs) (addr a : Nat)
    (hne : ∀ d, o.dirs.lookup addr = some d → d.inode ≠ a) :
    ({ o with inodes := free o.inodes a } : Objs).dirHome addr = o.dirHome addr := by
  unfold dirHome
  cases hd : o.dirs.lookup addr with
  | none => rfl
  | some d =>
      simp only [Option.bind_some]
      rw [lookup_free_ne _ (hne d hd)]

/-- A new inode at an address the directory is not open on. -/
theorem dirHome_cons (o : Objs) (addr a : Nat) (i : Inode) (next : Nat)
    (hne : ∀ d, o.dirs.lookup addr = some d → d.inode ≠ a) :
    (⟨(a, i) :: o.inodes, o.files, o.dirs, next⟩ : Objs).dirHome addr = o.dirHome addr := by
  unfold dirHome
  cases hd : o.dirs.lookup addr with
  | none => rfl
  | some d =>
      simp only [Option.bind_some]
      rw [lookup_cons_eq, if_neg (hne d hd)]

/-- A directory changed in place, still open on the same inode. -/
theorem dirHome_modify_dirs (o : Objs) (addr b : Nat) (g : Dir → Dir)
    (hg : ∀ d, (g d).inode = d.inode) :
    ({ o with dirs := modify o.dirs b g } : Objs).dirHome addr = o.dirHome addr := by
  unfold dirHome
  by_cases hab : addr = b
  · subst hab
    rw [lookup_modify_self]
    cases o.dirs.lookup addr with
    | none => rfl
    | some d => simp [hg]
  · rw [lookup_modify_ne _ hab]

end Objs

/-- The directory at `addr` is open on an inode of sector `sector` that accepts writes. -/
def DirOpenOn (fs : FS) (addr sector : Nat) : Prop := fs.objs.dirHome addr = some (sector, 0)

section Home

variable {fs : FS} {addr sector : Nat}

theorem DirOpenOn.exists_inode (h : DirOpenOn fs addr sector) :
    ∃ i, fs.dirInode addr = some i ∧ i.sector = sector ∧ i.denyWriteCnt = 0 := by
  unfold DirOpenOn Objs.dirHome at h
  obtain ⟨i, hi, hsd⟩ := Option.map_eq_some_iff.mp h
  obtain ⟨hs, hd⟩ := Prod.mk.inj hsd
  exact ⟨i, hi, hs, hd⟩

theorem entriesOf_of_dirOpenOn (h : DirOpenOn fs addr sector) :
    fs.entriesOf addr = fs.dirEntries sector := by
  obtain ⟨i, hi, hs, -⟩ := h.exists_inode
  simp [FS.entriesOf, hi, hs]

/-- New entries leave the objects, so the directory reads them from the same sector. -/
theorem entriesOf_with_entries (h : DirOpenOn fs addr sector) (f : Nat → List DirEntry) :
    FS.entriesOf { fs with dirEntries := f } addr = f sector := by
  have h' : DirOpenOn { fs with dirEntries := f } addr sector := h
  exact entriesOf_of_dirOpenOn h'

/-- The inode of a live directory is not at the address `malloc` gives next. -/
theorem dirInode_ne_next {pend : List Nat} (hb : Bal fs.objs pend) :
    ∀ d, fs.dirs.lookup addr = some d → d.inode ≠ fs.nextAddr := by
  intro d hd heq
  have hlive := hb.dirs_live _ (mem_of_lookup _ hd)
  exact Nat.lt_irrefl _ (heq ▸ hb.inodes_fresh _ hlive)

/-- `inode_open` keeps the directory's inode: it reopens an inode in place or adds one at a
fresh address. -/
theorem dirHome_inodeOpen {pend : List Nat} (hb : Bal fs.objs pend) (s : Nat) :
    (fs.inodeOpen s).1.objs.dirHome addr = fs.objs.dirHome addr := by
  cases h : fs.openInodes.find? (·.2.sector = s) with
  | some p =>
      obtain ⟨a, j⟩ := p
      rw [inodeOpen_of_find h]
      show (fs.modifyInode a _).objs.dirHome addr = _
      rw [objs_modifyInode]
      exact Objs.dirHome_modify _ _ _ _ fun _ => ⟨rfl, rfl⟩
  | none =>
      rw [inodeOpen_of_find_none h]
      exact Objs.dirHome_cons fs.objs addr _ _ _ (dirInode_ne_next hb)

/-- `inode_close` of a reference the caller holds keeps the directory's inode: if it is the
directory's own, the directory holds another reference, so it is not freed. -/
theorem dirHome_inodeClose {a : Nat} {pend : List Nat} (hb : Bal fs.objs (a :: pend)) :
    (fs.inodeClose (some a)).objs.dirHome addr = fs.objs.dirHome addr := by
  cases hi : fs.inodeAt a with
  | none => rw [objs_inodeClose_none hi]
  | some j =>
      rw [objs_inodeClose hi]
      unfold Objs.close
      split
      · rename_i h1
        apply Objs.dirHome_free
        intro d hd hda
        -- the directory and the caller both hold `a`, so its count is at least 2
        have hcnt := hb.open_cnt _ (mem_of_lookup _ hi)
        have hdir : 0 < fs.objs.dirRefs a :=
          List.countP_pos_iff.mpr ⟨(addr, d), mem_of_lookup _ hd, by simp [hda]⟩
        simp only [List.count_cons_self] at hcnt
        omega
      · exact Objs.dirHome_modify _ _ _ _ fun _ => ⟨rfl, rfl⟩

theorem dirHome_inodeRemove (a : Nat) :
    (fs.inodeRemove a).objs.dirHome addr = fs.objs.dirHome addr := by
  rw [FS.inodeRemove, objs_modifyInode]
  exact Objs.dirHome_modify _ _ _ _ fun _ => ⟨rfl, rfl⟩

theorem dirHome_of_objs {fs' : FS} (h : fs'.objs = fs.objs) :
    fs'.objs.dirHome addr = fs.objs.dirHome addr := by
  rw [h]

end Home

/-! ## The calls on the slots -/

@[simp] theorem dirEntries_inodeOpen (fs : FS) (s : Nat) :
    (fs.inodeOpen s).1.dirEntries = fs.dirEntries := by
  unfold FS.inodeOpen
  split <;> rfl

@[simp] theorem dirEntries_inodeClose (fs : FS) (x : Option Nat) :
    (fs.inodeClose x).dirEntries = fs.dirEntries := by
  unfold FS.inodeClose
  split
  · rfl
  · split
    · split <;> rfl
    · rfl

@[simp] theorem dirEntries_inodeRemove (fs : FS) (a : Nat) :
    (fs.inodeRemove a).dirEntries = fs.dirEntries := rfl

section Slot

variable {fs : FS} {addr sector : Nat}

/-- A write inside the directory's data sets the entry of its slot. -/
theorem writeEntry_of_lt (h : DirOpenOn fs addr sector) {idx : Nat}
    (hidx : idx < (fs.dirEntries sector).length) (e : DirEntry) :
    fs.writeEntry addr idx e =
      ({ fs with
          dirEntries := Function.update fs.dirEntries sector ((fs.dirEntries sector).set idx e) },
        true) := by
  obtain ⟨i, hi, rfl, hd⟩ := h.exists_inode
  have hok : ¬(i.denyWriteCnt ≠ 0 ∨ (fs.dirEntries i.sector).length ≤ idx) := by omega
  simp only [FS.writeEntry, hi, if_neg hok]

/-- A write at or past the end is short: the directory cannot grow. -/
theorem writeEntry_of_le (h : DirOpenOn fs addr sector) {idx : Nat}
    (hidx : (fs.dirEntries sector).length ≤ idx) (e : DirEntry) :
    fs.writeEntry addr idx e = (fs, false) := by
  obtain ⟨i, hi, rfl, -⟩ := h.exists_inode
  simp only [FS.writeEntry, hi, if_pos (Or.inr hidx)]

/-- What `lookup` finds is in use, has the name, and is the entry of its slot. -/
theorem lookup_eq_some_slot (h : DirOpenOn fs addr sector) {name : List UInt8} {e : DirEntry}
    {ofs : Nat} (hl : fs.lookup addr name = some (e, ofs)) :
    ∃ hofs : ofs < (fs.dirEntries sector).length, (fs.dirEntries sector)[ofs] = e ∧
      e.inUse = true ∧ e.name = name := by
  rw [FS.lookup, entriesOf_of_dirOpenOn h] at hl
  obtain ⟨hofs, hget, hfind⟩ :=
    find?_zipIdx_eq_some (p := fun e : DirEntry => e.inUse && e.name == name) hl
  have hp := List.find?_some hfind
  simp only [Bool.and_eq_true, beq_iff_eq] at hp
  exact ⟨hofs, hget, hp⟩

/-- The sector `lookup` finds is the one the entries, read as a map, give the name. -/
theorem lookup_map_sector (name : List UInt8) :
    (fs.lookup addr name).map (·.1.inodeSector) =
      ((fs.entriesOf addr).filterMap DirEntry.named).lookup name := by
  have hmap := map_find?_zipIdx (fun e : DirEntry => e.inUse && e.name == name)
    (fs.entriesOf addr) 0
  calc (fs.lookup addr name).map (·.1.inodeSector)
      = ((fs.lookup addr name).map Prod.fst).map (·.inodeSector) := by
        rw [Option.map_map]; rfl
    _ = ((fs.entriesOf addr).find? fun e => e.inUse && e.name == name).map (·.inodeSector) := by
        rw [FS.lookup, ← hmap]
    _ = _ := find?_named _ name

end Slot

/-- The entries of the directory at `addr` hold the map `spec`: the directory is open on an
inode that accepts writes, its entries are the spec's slots, and those in use hold the
spec's names, in some order. -/
structure DirHolds (fs : FS) (addr : Nat) (spec : DirSpec) : Prop where
  bal : ∃ pend, Bal fs.objs pend
  home : ∃ sector, DirOpenOn fs addr sector
  slots : (fs.entriesOf addr).length = spec.slots
  names : ((fs.entriesOf addr).filterMap DirEntry.named).Perm spec.names

namespace DirHolds

variable {fs : FS} {addr : Nat} {spec : DirSpec}

theorem names_nodup (h : DirHolds fs addr spec) :
    (((fs.entriesOf addr).filterMap DirEntry.named).map Prod.fst).Nodup :=
  (h.names.map Prod.fst).nodup_iff.mpr spec.nodup

/-- `lookup` finds the sector the spec gives the name. -/
theorem lookup_eq_spec (h : DirHolds fs addr spec) (name : List UInt8) :
    (fs.lookup addr name).map (·.1.inodeSector) = spec.lookup name := by
  rw [lookup_map_sector]
  exact lookup_eq_of_perm h.names h.names_nodup name

theorem lookup_eq_none_iff (h : DirHolds fs addr spec) (name : List UInt8) :
    fs.lookup addr name = none ↔ spec.lookup name = none := by
  rw [← h.lookup_eq_spec name, Option.map_eq_none_iff]

/-- The spec has room for another name exactly when a slot is free. -/
theorem room_iff (h : DirHolds fs addr spec) :
    spec.names.length < spec.slots ↔ ∃ e ∈ fs.entriesOf addr, e.inUse = false := by
  rw [← h.names.length_eq, ← h.slots, length_filterMap_lt_iff]
  simp only [DirEntry.named_eq_none]

/-- A state whose objects give the directory the same inode, with the same entries. -/
theorem of_frame (h : DirHolds fs addr spec) {fs' : FS} {pend : List Nat}
    (hb : Bal fs'.objs pend) (hhome : fs'.objs.dirHome addr = fs.objs.dirHome addr)
    (hent : fs'.dirEntries = fs.dirEntries) : DirHolds fs' addr spec := by
  obtain ⟨sector, hs⟩ := h.home
  have hs' : DirOpenOn fs' addr sector := hhome.trans hs
  have he : fs'.entriesOf addr = fs.entriesOf addr := by
    rw [entriesOf_of_dirOpenOn hs', entriesOf_of_dirOpenOn hs, hent]
  exact ⟨⟨pend, hb⟩, ⟨sector, hs'⟩, he ▸ h.slots, he ▸ h.names⟩

end DirHolds

/-! ## Each call keeps the map -/

section Steps

variable {fs : FS} {addr : Nat} {spec : DirSpec}

/-- `dir_add` of a valid name the directory does not hold: it writes the first free slot,
or, with none free, past the end, where the write is short. -/
theorem dirAdd_step_fresh (h : DirHolds fs addr spec) {name : List UInt8} (hv : ValidName name)
    (hl : spec.lookup name = none) (s : Nat) :
    DirHolds (fs.dirAdd addr name s).1 addr (spec.add name s).1 ∧
      (fs.dirAdd addr name s).2 = (spec.add name s).2 := by
  obtain ⟨sector, hs⟩ := h.home
  have hes := entriesOf_of_dirOpenOn hs
  have hnone : ¬(fs.lookup addr name).isSome := by
    rw [Option.isSome_iff_ne_none, not_not, h.lookup_eq_none_iff]
    exact hl
  rw [FS.dirAdd, if_neg ((validName_iff name).mp hv), if_neg hnone]
  dsimp only
  rw [hes]
  cases hf : (fs.dirEntries sector).findIdx? (!·.inUse) with
  | none =>
      -- every slot is in use, so the spec has no room either
      have hfull : ¬spec.names.length < spec.slots := by
        rw [h.room_iff, hes]
        rintro ⟨e, he, hfree⟩
        have hused := List.findIdx?_eq_none_iff.mp hf e he
        simp [hfree] at hused
      rw [Option.getD_none, writeEntry_of_le hs le_rfl, DirSpec.add,
        dif_neg fun hc => hfull hc.2.2]
      exact ⟨h, rfl⟩
  | some idx =>
      obtain ⟨hidx, hfree, -⟩ := List.findIdx?_eq_some_iff_getElem.mp hf
      have hfree' : (fs.dirEntries sector)[idx].inUse = false := by simpa using hfree
      have hroom : spec.names.length < spec.slots :=
        h.room_iff.mpr ⟨_, by rw [hes]; exact List.getElem_mem hidx, hfree'⟩
      rw [Option.getD_some, writeEntry_of_lt hs hidx, DirSpec.add, dif_pos ⟨hv, hl, hroom⟩]
      refine ⟨?_, rfl⟩
      -- the objects are those of `fs`; the entries are the old ones with the slot filled
      set es' := (fs.dirEntries sector).set idx ⟨s, name, true⟩
      have hes' : FS.entriesOf { fs with dirEntries := Function.update fs.dirEntries sector es' }
          addr = es' := by
        rw [entriesOf_with_entries hs, Function.update_self]
      obtain ⟨pend, hb⟩ := h.bal
      refine ⟨⟨pend, hb⟩, ⟨sector, hs⟩, ?_, ?_⟩
      · rw [hes', List.length_set, ← hes, h.slots]
      · rw [hes']
        have hperm := filterMap_set_perm DirEntry.named (fs.dirEntries sector) hidx
          ((DirEntry.named_eq_none _).mpr hfree') (x := ⟨s, name, true⟩) rfl
        exact hperm.trans (.cons _ (hes ▸ h.names))

/-- `dir_add` does to the entries what `DirSpec.add` does to the map, and answers as it. -/
theorem dirAdd_step (h : DirHolds fs addr spec) (name : List UInt8) (s : Nat) :
    DirHolds (fs.dirAdd addr name s).1 addr (spec.add name s).1 ∧
      (fs.dirAdd addr name s).2 = (spec.add name s).2 := by
  by_cases hv : ValidName name
  · by_cases hl : spec.lookup name = none
    · exact dirAdd_step_fresh h hv hl s
    · -- the name is there: both refuse
      have hsome : (fs.lookup addr name).isSome := by
        rw [Option.isSome_iff_ne_none, Ne, h.lookup_eq_none_iff]
        exact hl
      rw [FS.dirAdd, if_neg ((validName_iff name).mp hv), if_pos hsome, DirSpec.add,
        dif_neg fun hc => hl hc.2.1]
      exact ⟨h, rfl⟩
  · have hinv : name = [] ∨ name.length > NAME_MAX := not_not.mp (mt (validName_iff name).mpr hv)
    rw [FS.dirAdd, if_pos hinv, DirSpec.add, dif_neg fun hc => hv hc.1]
    exact ⟨h, rfl⟩

/-- `dir_remove` of a name the directory holds: it opens the entry's inode, frees the slot,
marks the inode removed and closes it, and the directory's own inode stays as it was. -/
theorem dirRemove_step_found (h : DirHolds fs addr spec) {name : List UInt8} {e : DirEntry}
    {ofs : Nat} (hl : fs.lookup addr name = some (e, ofs)) :
    DirHolds (fs.dirRemove addr name).1 addr (spec.remove name).1 ∧
      (fs.dirRemove addr name).2 = (spec.remove name).2 := by
  obtain ⟨sector, hs⟩ := h.home
  obtain ⟨pend, hb⟩ := h.bal
  have hes := entriesOf_of_dirOpenOn hs
  obtain ⟨hofs, hget, huse, hname⟩ := lookup_eq_some_slot hs hl
  have hspec : spec.lookup name ≠ none := by
    rw [← h.lookup_eq_spec, hl]
    simp
  have hb1 := bal_inodeOpen hb e.inodeSector
  have hs1 : DirOpenOn (fs.inodeOpen e.inodeSector).1 addr sector :=
    (dirHome_inodeOpen hb _).trans hs
  have hent1 := dirEntries_inodeOpen fs e.inodeSector
  rw [FS.dirRemove, hl, DirSpec.remove, if_neg hspec]
  dsimp only
  generalize fs.inodeOpen e.inodeSector = p at hb1 hs1 hent1 ⊢
  obtain ⟨fs1, inode⟩ := p
  dsimp only at hb1 hs1 hent1 ⊢
  have hlen1 : ofs < (fs1.dirEntries sector).length := by
    rw [hent1]
    exact hofs
  -- the write frees the slot and leaves the objects
  obtain ⟨fs2, hw, hobjs, hent2⟩ : ∃ fs2, fs1.writeEntry addr ofs { e with inUse := false } =
      (fs2, true) ∧ fs2.objs = fs1.objs ∧
      fs2.dirEntries sector = (fs.dirEntries sector).set ofs { e with inUse := false } :=
    ⟨_, writeEntry_of_lt hs1 hlen1 _, rfl, by dsimp only; rw [Function.update_self, hent1]⟩
  rw [hw]
  dsimp only
  -- the entry's inode is removed and closed; the directory still holds its own
  have hb2 : Bal (fs2.inodeRemove inode).objs (inode :: pend) :=
    bal_inodeRemove (hobjs ▸ hb1) inode
  have hsf : DirOpenOn ((fs2.inodeRemove inode).inodeClose (some inode)) addr sector :=
    ((dirHome_inodeClose hb2).trans (dirHome_inodeRemove inode)).trans
      ((dirHome_of_objs hobjs).trans hs1)
  have hesf : ((fs2.inodeRemove inode).inodeClose (some inode)).entriesOf addr =
      (fs.dirEntries sector).set ofs { e with inUse := false } := by
    rw [entriesOf_of_dirOpenOn hsf, dirEntries_inodeClose, dirEntries_inodeRemove, hent2]
  refine ⟨⟨⟨pend, bal_inodeClose hb2⟩, ⟨sector, hsf⟩, ?_, ?_⟩, rfl⟩
  · rw [hesf, List.length_set, ← hes, h.slots]
  · -- freeing the slot takes the name's pair out of the map
    have hy : DirEntry.named (fs.dirEntries sector)[ofs] = some (name, e.inodeSector) := by
      simp [hget, DirEntry.named, huse, hname]
    have hfree := filterMap_set_free_perm DirEntry.named (fs.dirEntries sector) hofs hy
      (x := { e with inUse := false }) rfl
    rw [hesf]
    exact perm_filter_of_cons_perm (hfree.trans (hes ▸ h.names)) spec.nodup

/-- `dir_remove` does to the entries what `DirSpec.remove` does to the map, and answers as
it. -/
theorem dirRemove_step (h : DirHolds fs addr spec) (name : List UInt8) :
    DirHolds (fs.dirRemove addr name).1 addr (spec.remove name).1 ∧
      (fs.dirRemove addr name).2 = (spec.remove name).2 := by
  cases hl : fs.lookup addr name with
  | none =>
      have hn : spec.lookup name = none := (h.lookup_eq_none_iff name).mp hl
      rw [FS.dirRemove, hl, DirSpec.remove, if_pos hn]
      exact ⟨h, rfl⟩
  | some p =>
      obtain ⟨e, ofs⟩ := p
      exact dirRemove_step_found h hl

/-- `dir_lookup` opens the inode of the sector the spec gives the name, and keeps the map. -/
theorem dirLookup_step (h : DirHolds fs addr spec) (name : List UInt8) :
    DirHolds (fs.dirLookup addr name).1 addr spec ∧
      ((fs.dirLookup addr name).2.bind (fs.dirLookup addr name).1.inodeAt).map (·.sector) =
        spec.lookup name := by
  obtain ⟨pend, hb⟩ := h.bal
  cases hl : fs.lookup addr name with
  | none =>
      rw [FS.dirLookup, hl]
      refine ⟨h, ?_⟩
      rw [← h.lookup_eq_spec, hl]
      rfl
  | some p =>
      obtain ⟨e, ofs⟩ := p
      have hd : fs.dirLookup addr name =
          ((fs.inodeOpen e.inodeSector).1, some (fs.inodeOpen e.inodeSector).2) := by
        rw [FS.dirLookup, hl]
      obtain ⟨i, hi, hsec⟩ := inodeOpen_sector hb e.inodeSector
      rw [hd]
      refine ⟨h.of_frame (bal_inodeOpen hb _) (dirHome_inodeOpen hb _) (dirEntries_inodeOpen _ _), ?_⟩
      rw [← h.lookup_eq_spec, hl]
      simp [hi, hsec]

/-- `dir_readdir` moves the directory's position and nothing else. -/
theorem bal_dirReaddir {pend : List Nat} (hb : Bal fs.objs pend) (addr : Nat) :
    Bal (fs.dirReaddir addr).1.objs pend := by
  unfold FS.dirReaddir
  split
  · exact hb
  · dsimp only
    -- the new position is all that changes
    generalize (readdirFrom _ _).1 * DIR_ENTRY_SIZE = k
    exact hb.modify_dir addr (fun d => { d with pos := k }) fun _ => rfl

theorem dirHome_dirReaddir (addr b : Nat) :
    (fs.dirReaddir b).1.objs.dirHome addr = fs.objs.dirHome addr := by
  unfold FS.dirReaddir
  split
  · rfl
  · dsimp only
    generalize (readdirFrom _ _).1 * DIR_ENTRY_SIZE = k
    exact Objs.dirHome_modify_dirs fs.objs addr b (fun d => { d with pos := k }) fun _ => rfl

@[simp] theorem dirEntries_dirReaddir (addr : Nat) :
    (fs.dirReaddir addr).1.dirEntries = fs.dirEntries := by
  unfold FS.dirReaddir
  split <;> rfl

theorem dirReaddir_step (h : DirHolds fs addr spec) : DirHolds (fs.dirReaddir addr).1 addr spec := by
  obtain ⟨pend, hb⟩ := h.bal
  exact h.of_frame (bal_dirReaddir hb addr) (dirHome_dirReaddir addr addr) (dirEntries_dirReaddir addr)

end Steps

/-! ## Runs of calls -/

section Runs

variable {fs : FS} {addr : Nat} {spec : DirSpec}

/-- Every run of calls on an open directory keeps its entries holding the spec's map, and
every reply the spec gives is the code's. -/
theorem runDir_holds (calls : List DirCall) : ∀ {fs : FS} {spec : DirSpec},
    DirHolds fs addr spec →
      DirHolds (fs.runDir addr calls).1 addr (spec.run calls).1 ∧
        List.Forall₂ (fun r s => ∀ r', s = some r' → r = r') (fs.runDir addr calls).2
          (spec.run calls).2 := by
  induction calls with
  | nil => exact fun h => ⟨h, .nil⟩
  | cons c calls ih =>
      intro fs spec h
      cases c with
      | add name s =>
          obtain ⟨h1, hr⟩ := dirAdd_step h name s
          obtain ⟨hrun, hreplies⟩ := ih h1
          simp only [FS.runDir, DirSpec.run]
          refine ⟨hrun, .cons ?_ hreplies⟩
          rintro _ ⟨⟩
          rw [hr]
      | remove name =>
          obtain ⟨h1, hr⟩ := dirRemove_step h name
          obtain ⟨hrun, hreplies⟩ := ih h1
          simp only [FS.runDir, DirSpec.run]
          refine ⟨hrun, .cons ?_ hreplies⟩
          rintro _ ⟨⟩
          rw [hr]
      | lookup name =>
          obtain ⟨h1, hr⟩ := dirLookup_step h name
          obtain ⟨hrun, hreplies⟩ := ih h1
          simp only [FS.runDir, DirSpec.run]
          refine ⟨hrun, .cons ?_ hreplies⟩
          rintro _ ⟨⟩
          rw [hr]
      | readdir =>
          obtain ⟨hrun, hreplies⟩ := ih (dirReaddir_step h)
          simp only [FS.runDir, DirSpec.run]
          exact ⟨hrun, .cons (fun _ hc => nomatch hc) hreplies⟩

/-- From an open directory at entry `k`, `dir_readdir` reads from slot `k` on and moves the
position to the slot after the one it read. -/
theorem dirReaddir_of_pos {d : Dir} (hd : fs.dirAt addr = some d) {k : Nat}
    (hk : d.pos = k * DIR_ENTRY_SIZE) :
    ((fs.dirReaddir addr).1.dirAt addr).map (·.pos) =
        some ((readdirFrom ((fs.entriesOf addr).drop k) k).1 * DIR_ENTRY_SIZE) ∧
      (fs.dirReaddir addr).2 = (readdirFrom ((fs.entriesOf addr).drop k) k).2 := by
  have hk' : d.pos / DIR_ENTRY_SIZE = k := by
    rw [hk, Nat.mul_div_cancel _ (by decide : 0 < DIR_ENTRY_SIZE)]
  have hd' : fs.dirs.lookup addr = some d := hd
  unfold FS.dirReaddir
  rw [hd]
  dsimp only
  rw [hk']
  exact ⟨by simp only [FS.dirAt, lookup_modify_self, hd', Option.map_some], rfl⟩

/-- `dir_readdir` called from entry `k` until it fails reads the names in use from slot `k`
on, in order, given a call for every slot left. By induction on the fuel: each call reads
the next name in use and moves past it. -/
theorem readdirAll_from {sector : Nat} {es : List DirEntry} (fuel : Nat) :
    ∀ (k : Nat) (fs : FS), DirOpenOn fs addr sector → fs.dirEntries sector = es →
      (fs.dirAt addr).map (·.pos) = some (k * DIR_ENTRY_SIZE) → es.length - k < fuel →
      fs.readdirAll addr fuel = ((es.drop k).filter (·.inUse)).map (·.name) := by
  induction fuel with
  | zero =>
      intro k fs _ _ _ hf
      omega
  | succ fuel ih =>
      intro k fs hs hent hpos hf
      obtain ⟨d, hd, hdk⟩ := Option.map_eq_some_iff.mp hpos
      obtain ⟨hpos', hname⟩ := dirReaddir_of_pos hd hdk
      have hs' : DirOpenOn (fs.dirReaddir addr).1 addr sector :=
        (dirHome_dirReaddir addr addr).trans hs
      have hent' : (fs.dirReaddir addr).1.dirEntries sector = es := by
        rw [dirEntries_dirReaddir, hent]
      rw [entriesOf_of_dirOpenOn hs, hent] at hpos' hname
      rw [FS.readdirAll]
      generalize fs.dirReaddir addr = p at hs' hent' hpos' hname ⊢
      obtain ⟨fs', r⟩ := p
      dsimp only at hs' hent' hpos' hname ⊢
      subst hname
      cases hr : (readdirFrom (es.drop k) k).2 with
      | none =>
          rw [readdirFrom_none _ hr]
          rfl
      | some n =>
          -- the call read `n`; the rest of the pass starts after its slot
          obtain ⟨hlt, heq⟩ := readdirFrom_some _ hr
          have hle := readdirFrom_le (es.drop k) k
          rw [List.length_drop] at hle
          dsimp only
          rw [ih _ fs' hs' hent' hpos' (by omega), ← heq, List.drop_drop,
            Nat.add_sub_cancel' hlt.le]

/-- `dir_readdir` from position 0, given a call for every slot, reads the names in use. -/
theorem readdirAll_eq (h : DirHolds fs addr spec) (hpos : (fs.dirAt addr).map (·.pos) = some 0)
    {fuel : Nat} (hfuel : spec.slots < fuel) :
    fs.readdirAll addr fuel = ((fs.entriesOf addr).filter (·.inUse)).map (·.name) := by
  obtain ⟨sector, hs⟩ := h.home
  have hes := entriesOf_of_dirOpenOn hs
  have hleft : (fs.dirEntries sector).length - 0 < fuel := by
    rw [← hes, h.slots]
    omega
  rw [readdirAll_from fuel 0 fs hs rfl (by simpa using hpos) hleft, List.drop_zero, hes]

/-- A name is not in use exactly when `lookup` finds nothing for it. -/
theorem lookup_eq_none_iff_not_mem (name : List UInt8) :
    fs.lookup addr name = none ↔ name ∉ ((fs.entriesOf addr).filter (·.inUse)).map (·.name) := by
  rw [← Option.map_eq_none_iff (f := Prod.fst), FS.lookup,
    map_find?_zipIdx (fun e : DirEntry => e.inUse && e.name == name), List.find?_eq_none]
  simp

/-- `dir_add` succeeds exactly for a valid name not in use, while a slot is free. -/
theorem dirAdd_iff (h : DirHolds fs addr spec) (name : List UInt8) (s : Nat) :
    (fs.dirAdd addr name s).2 = true ↔
      ValidName name ∧ name ∉ ((fs.entriesOf addr).filter (·.inUse)).map (·.name) ∧
        ∃ e ∈ fs.entriesOf addr, e.inUse = false := by
  rw [(dirAdd_step h name s).2, DirSpec.add_snd, ← lookup_eq_none_iff_not_mem,
    h.lookup_eq_none_iff, h.room_iff]

end Runs

/-! ## The directory's behaviour over every run -/

/-- What the directory at `addr` does from a state, against the map `spec`: its entries keep
their number, the names in use are distinct, `dir_add` succeeds exactly for a valid name not
in use while a slot is free, `dir_lookup` opens the sector `spec` gives the name, and
`dir_readdir` from position 0, given a call for every slot, reads the names in use. -/
structure DirBehaves (fs : FS) (addr : Nat) (spec : DirSpec) : Prop where
  slots : (fs.entriesOf addr).length = spec.slots
  distinct : (((fs.entriesOf addr).filter (·.inUse)).map (·.name)).Nodup
  add_iff : ∀ name s, (fs.dirAdd addr name s).2 = true ↔
    ValidName name ∧ name ∉ ((fs.entriesOf addr).filter (·.inUse)).map (·.name) ∧
      ∃ e ∈ fs.entriesOf addr, e.inUse = false
  lookup : ∀ name,
    ((fs.dirLookup addr name).2.bind (fs.dirLookup addr name).1.inodeAt).map (·.sector) =
      spec.lookup name
  readdir : ∀ fuel, spec.slots < fuel → (fs.dirAt addr).map (·.pos) = some 0 →
    fs.readdirAll addr fuel = ((fs.entriesOf addr).filter (·.inUse)).map (·.name)

section Behaviour

variable {fs : FS} {addr : Nat} {spec : DirSpec}

theorem DirHolds.behaves (h : DirHolds fs addr spec) : DirBehaves fs addr spec where
  slots := h.slots
  distinct := by
    rw [← map_fst_filterMap_named]
    exact h.names_nodup
  add_iff := dirAdd_iff h
  lookup name := (dirLookup_step h name).2
  readdir _ hfuel hpos := readdirAll_eq h hpos hfuel

/-- A directory open on an inode that accepts writes, with every entry free, holds the map
with no names and a slot for each entry: what `dir_create` and `dir_open` leave. -/
theorem dirHolds_empty {pend : List Nat} (hb : Bal fs.objs pend) {sector : Nat}
    (hs : DirOpenOn fs addr sector) (hfree : ∀ e ∈ fs.dirEntries sector, e.inUse = false) :
    DirHolds fs addr (DirSpec.empty (fs.dirEntries sector).length) := by
  have hes := entriesOf_of_dirOpenOn hs
  have hnone : (fs.dirEntries sector).filterMap DirEntry.named = [] :=
    List.filterMap_eq_nil_iff.mpr fun e he => (DirEntry.named_eq_none e).mpr (hfree e he)
  refine ⟨⟨pend, hb⟩, ⟨sector, hs⟩, ?_, ?_⟩
  · rw [hes]
    rfl
  · rw [hes, hnone]
    rfl

theorem directory_semantics (h : DirHolds fs addr spec) (calls : List DirCall) :
    List.Forall₂ (fun r s => ∀ r', s = some r' → r = r') (fs.runDir addr calls).2
        (spec.run calls).2 ∧
      DirBehaves (fs.runDir addr calls).1 addr (spec.run calls).1 := by
  obtain ⟨hrun, hreplies⟩ := runDir_holds calls h
  exact ⟨hreplies, hrun.behaves⟩

end Behaviour

/-- One directory, at address 2, open on the inode at address 1, of sector 1, whose data
holds two free entries. -/
def twoSlotDirFs : FS where
  freeMap := List.replicate 16 true
  diskInodes := fun _ => none
  disk := fun _ => 0
  dirEntries := fun _ => List.replicate 2 DirEntry.zero
  openInodes := [(1, ⟨1, 1, false, 0, ⟨2, 2 * DIR_ENTRY_SIZE⟩⟩)]
  files := []
  dirs := [(2, ⟨1, 0⟩)]
  nextAddr := 3
  freeMapFile := none
  panicked := false

theorem dirHolds_twoSlotDirFs : DirHolds twoSlotDirFs 2 (DirSpec.empty 2) := by
  have hb : Bal twoSlotDirFs.objs [] := by
    constructor <;> decide
  have hs : DirOpenOn twoSlotDirFs 2 1 := rfl
  exact dirHolds_empty hb hs (by decide)

theorem directory_semantics_fill_and_reuse :
    List.Forall₂ (fun r s => ∀ r', s = some r' → r = r')
        (twoSlotDirFs.runDir 2
          [.add [97] 7, .add [98] 8, .add [99] 9, .remove [97], .add [99] 9, .lookup [98]]).2
        ((DirSpec.empty 2).run
          [.add [97] 7, .add [98] 8, .add [99] 9, .remove [97], .add [99] 9, .lookup [98]]).2 ∧
      DirBehaves
        (twoSlotDirFs.runDir 2
          [.add [97] 7, .add [98] 8, .add [99] 9, .remove [97], .add [99] 9, .lookup [98]]).1 2
        ((DirSpec.empty 2).run
          [.add [97] 7, .add [98] 8, .add [99] 9, .remove [97], .add [99] 9, .lookup [98]]).1 :=
  directory_semantics dirHolds_twoSlotDirFs _

/-- The third add finds no free slot and fails; the remove frees a slot that the next add
reuses. -/
example : (twoSlotDirFs.runDir 2
      [.add [97] 7, .add [98] 8, .add [99] 9, .remove [97], .add [99] 9, .lookup [98]]).2 =
    [.success true, .success true, .success false, .success true, .success true,
      .sector (some 8)] := by
  decide

end Pintos.Filesys
