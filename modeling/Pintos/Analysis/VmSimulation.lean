import Pintos.Interface.FlatMemory

/-!
# Virtual memory simulates flat memory while nothing is evicted or unmapped

One process runs from boot; it opens files, maps them, reads and writes its memory and
exits. As long as every frame it needs is free in the user pool, so that
`alloc_frame_entry` never evicts, and as long as it never calls `munmap`, it reads what
`Flat` says it reads.

`Live` relates the two machines while the process runs. Each page that `Flat` has
registered is either mapped in the page directory, to a frame that holds the page's bytes
(`Mapped`), or registered in the supplemental page table and not loaded, with the part of
its file that `load_file_page` would read holding the page's bytes (`Unloaded`). The
frames of mapped pages are distinct and marked used in the pool, so a page taken from the
pool is none of them. `Finished` relates the machines once the process has exited in
both, or the model has stopped.
-/

set_option autoImplicit false

namespace Pintos.Vm.Analysis

open State

/-! ## The relation -/

/-- The page `u` of `p` is mapped, and its frame holds the flat page's bytes. -/
def Mapped (vm : State) (p : Proc) (u : Nat) (pg : Flat.Page) : Prop :=
  ∃ pte, p.lookupPte u = some pte ∧ pte.present = true ∧ pte.writable = pg.writable ∧
    ((p.findSpte u).isSome ∨ u = PHYS_BASE - PGSIZE) ∧
    ∀ o < PGSIZE, pg.bytes o = vm.mem pte.kpage o

/-- The page `u` of `p` is registered and not loaded, and what `load_file_page` would read
of its file, with zeros after it, is the flat page's bytes. -/
def Unloaded (vm : State) (p : Proc) (u : Nat) (pg : Flat.Page) : Prop :=
  p.lookupPte u = none ∧ ∃ spte f, p.findSpte u = some spte ∧ spte.status = .notLoaded ∧
    spte.file = some f ∧ f < vm.files.length ∧ spte.writable = pg.writable ∧
    spte.readBytes + spte.zeroBytes = PGSIZE ∧
    spte.ofs + spte.readBytes ≤ (vm.inode (vm.file f).inode).length ∧
    ∀ o < PGSIZE, pg.bytes o =
      if o < spte.readBytes then (vm.inode (vm.file f).inode).data (spte.ofs + o) else 0

/-- The page `u` of `p` against what `Flat` has at `u`. -/
def PageSim (vm : State) (p : Proc) (u : Nat) : Option Flat.Page → Prop
  | none => p.findSpte u = none ∧ p.lookupPte u = none
  | some pg => Mapped vm p u pg ∨ Unloaded vm p u pg

/-- The machines while thread 0 runs. -/
structure Live (vm : State) (fm : Flat.State) : Prop where
  running : vm.panicked = false
  procs : vm.procs.length = 1
  flatProcs : fm.procs.length = 1
  alive : (vm.proc 0).alive = true
  flatAlive : (fm.proc 0).alive = true
  reads : vm.reads = fm.reads
  inodes : vm.inodes = fm.inodes
  files : vm.files.map (·.inode) = fm.files
  fdt : (vm.proc 0).fdt = (fm.proc 0).fdt
  nextFd : (vm.proc 0).nextFd = (fm.proc 0).nextFd
  pages : ∀ u, PageSim vm (vm.proc 0) u ((fm.proc 0).pages.lookup u)
  frames : ∀ u u' k, (vm.proc 0).getPage u = some k → (vm.proc 0).getPage u' = some k → u = u'
  used : ∀ u k, (vm.proc 0).getPage u = some k → vm.userPool.getD k false = true

/-- The machines once thread 0 has exited in both, or the model has stopped. -/
structure Finished (vm : State) (fm : Flat.State) : Prop where
  stopped : vm.panicked = true ∨ (vm.procs.length = 1 ∧ (vm.proc 0).alive = false)
  flatStopped : fm.procs.length = 1 ∧ (fm.proc 0).alive = false
  reads : vm.reads = fm.reads

/-! ## Pages that an operation does not touch -/

/-- A page's relation depends on its two table entries, its frame's bytes and its file. -/
theorem pageSim_congr {vm vm' : State} {p p' : Proc} {u : Nat} {x : Option Flat.Page}
    (h : PageSim vm p u x) (hpte : p'.lookupPte u = p.lookupPte u) (hspte : p'.findSpte u = p.findSpte u)
    (hmem : ∀ pte, p.lookupPte u = some pte → vm'.mem pte.kpage = vm.mem pte.kpage)
    (hfiles : ∀ f < vm.files.length, f < vm'.files.length ∧ vm'.inode (vm'.file f).inode = vm.inode (vm.file f).inode) :
    PageSim vm' p' u x := by
  cases x with
  | none =>
      obtain ⟨hs, hp⟩ := h
      exact ⟨hspte.trans hs, hpte.trans hp⟩
  | some pg =>
      rcases h with ⟨pte, hp, hpres, hw, hs, hb⟩ | ⟨hp, spte, f, hs, hst, hf, hfl, hw, hrz, hlen, hb⟩
      · left
        refine ⟨pte, hpte.trans hp, hpres, hw, by rwa [hspte], fun o ho => ?_⟩
        rw [hb o ho, hmem pte hp]
      · right
        obtain ⟨hfl', hino⟩ := hfiles f hfl
        refine ⟨hpte.trans hp, spte, f, hspte.trans hs, hst, hf, hfl', hw, hrz, ?_, fun o ho => ?_⟩
        · rwa [hino]
        · rw [hb o ho, hino]

/-- Changing the bits of a directory entry other than the frame, the present bit and the
writable bit keeps every page's relation. -/
theorem pageSim_modifyPte {vm vm' : State} {p : Proc} {u u0 : Nat} {x : Option Flat.Page}
    {f : Pte → Pte} (h : PageSim vm p u x)
    (hf : ∀ pte, (f pte).present = pte.present ∧ (f pte).kpage = pte.kpage ∧ (f pte).writable = pte.writable)
    (hmem : ∀ pte, p.lookupPte u = some pte → vm'.mem pte.kpage = vm.mem pte.kpage)
    (hfiles : ∀ f < vm.files.length, f < vm'.files.length ∧ vm'.inode (vm'.file f).inode = vm.inode (vm.file f).inode) :
    PageSim vm' (p.modifyPte u0 f) u x := by
  by_cases hu : u = u0
  · subst hu
    cases hp : p.lookupPte u with
    | none =>
        refine pageSim_congr h ?_ (Proc.findSpte_modifyPte _ _ _ _) hmem hfiles
        rw [Proc.lookupPte_modifyPte, if_pos rfl, hp]
        rfl
    | some pte =>
        -- an entry is only ever that of a mapped page
        cases x with
        | none => simp [PageSim, hp] at h
        | some pg =>
            rcases h with ⟨pte', hp', hpres, hw, hs, hb⟩ | ⟨hnone, -⟩
            · rw [hp] at hp'
              cases hp'
              obtain ⟨hfp, hfk, hfw⟩ := hf pte
              refine Or.inl ⟨f pte, by rw [Proc.lookupPte_modifyPte, if_pos rfl, hp]; rfl,
                hfp.trans hpres, hfw.trans hw, by rwa [Proc.findSpte_modifyPte], fun o ho => ?_⟩
              rw [hfk, hb o ho, hmem pte hp]
            · simp [hnone] at hp
  · refine pageSim_congr h ?_ (Proc.findSpte_modifyPte _ _ _ _) hmem hfiles
    rw [Proc.lookupPte_modifyPte, if_neg hu]

/-! ## The live machine -/

section Live

variable {vm : State} {fm : Flat.State}

theorem Live.proc_modifyProc (h : Live vm fm) (g : Proc → Proc) : (vm.modifyProc 0 g).proc 0 = g (vm.proc 0) := by
  rw [State.proc_modifyProc, if_pos ⟨rfl, by rw [h.procs]; exact Nat.one_pos⟩]

theorem Live.flat_proc_modifyProc (h : Live vm fm) (g : Flat.Proc → Flat.Proc) :
    (fm.modifyProc 0 g).proc 0 = g (fm.proc 0) := by
  rw [Flat.State.proc_modifyProc, if_pos ⟨rfl, by rw [h.flatProcs]; exact Nat.one_pos⟩]

/-- Every entry of the page directory is present: a page is mapped or has no entry. -/
theorem Live.present (h : Live vm fm) {u : Nat} {pte : Pte} (hp : (vm.proc 0).lookupPte u = some pte) :
    pte.present = true ∧ (vm.proc 0).getPage u = some pte.kpage := by
  have hpres : pte.present = true := by
    have hu := h.pages u
    cases hx : (fm.proc 0).pages.lookup u with
    | none =>
        rw [hx] at hu
        simp [hu.2] at hp
    | some pg =>
        rw [hx] at hu
        rcases hu with ⟨pte', hp', hpres, -⟩ | ⟨hnone, -⟩
        · rw [hp] at hp'
          cases hp'
          exact hpres
        · simp [hnone] at hp
  refine ⟨hpres, ?_⟩
  simp [Proc.getPage, hp, hpres]

/-- A user access that goes through: a read reads the flat page's byte, and a write writes
the same byte to the frame and to the flat page. -/
theorem live_perform (h : Live vm fm) {a : Nat} {pte : Pte} {pg : Flat.Page} (acc : Access)
    (hpte : (vm.proc 0).lookupPte (pgRoundDown a) = some pte)
    (hpg : (fm.proc 0).pages.lookup (pgRoundDown a) = some pg)
    (hbytes : ∀ o < PGSIZE, pg.bytes o = vm.mem pte.kpage o) (hw : pte.writable = pg.writable) :
    Live (vm.perform 0 a pte acc) (fm.perform 0 a pg acc) := by
  have hbits : ∀ (acc' dirty : Bool) (pte : Pte),
      ({ pte with accessed := acc', dirty := dirty } : Pte).present = pte.present ∧
        ({ pte with accessed := acc', dirty := dirty } : Pte).kpage = pte.kpage ∧
        ({ pte with accessed := acc', dirty := dirty } : Pte).writable = pte.writable :=
    fun _ _ _ => ⟨rfl, rfl, rfl⟩
  cases acc with
  | read =>
      have hp : (vm.perform 0 a pte .read).proc 0 =
          (vm.proc 0).modifyPte (pgRoundDown a) fun pte => { pte with accessed := true } := by
        simp only [perform]
        rw [State.proc_modifyProc, if_pos ⟨rfl, by simp [h.procs]⟩]
        rfl
      exact {
        running := h.running
        procs := by simp [perform, h.procs]
        flatProcs := h.flatProcs
        alive := by rw [hp, Proc.alive_modifyPte]; exact h.alive
        flatAlive := h.flatAlive
        reads := by simp [perform, Flat.State.perform, h.reads, hbytes _ (pgOfs_lt a)]
        inodes := h.inodes
        files := h.files
        fdt := by rw [hp, Proc.fdt_modifyPte]; exact h.fdt
        nextFd := by rw [hp, Proc.nextFd_modifyPte]; exact h.nextFd
        pages := fun u => by
          rw [hp]
          exact pageSim_modifyPte (h.pages u) (fun pte => hbits _ pte.dirty pte)
            (fun _ _ => rfl) (fun f hf => ⟨hf, rfl⟩)
        frames := fun u u' k => by
          simp only [hp, Proc.getPage_modifyPte _ _ _ (fun pte => ⟨(hbits _ pte.dirty pte).1, (hbits _ pte.dirty pte).2.1⟩)]
          exact h.frames u u' k
        used := fun u k => by
          simp only [hp, Proc.getPage_modifyPte _ _ _ (fun pte => ⟨(hbits _ pte.dirty pte).1, (hbits _ pte.dirty pte).2.1⟩)]
          exact h.used u k }
  | write v =>
      set u0 := pgRoundDown a
      set pg' : Flat.Page := { pg with bytes := Function.update pg.bytes (pgOfs a) v, written := true }
      have hp : (vm.perform 0 a pte (.write v)).proc 0 =
          (vm.proc 0).modifyPte u0 fun pte => { pte with accessed := true, dirty := true } := by
        simp only [perform]
        rw [State.proc_modifyProc, if_pos ⟨rfl, by simp [setFrame, h.procs]⟩]
        rfl
      have hfp : (fm.perform 0 a pg (.write v)).proc 0 =
          { fm.proc 0 with pages := (fm.proc 0).pages.insert u0 pg' } :=
        h.flat_proc_modifyProc _
      have hmem : (vm.perform 0 a pte (.write v)).mem =
          Function.update vm.mem pte.kpage (Function.update (vm.mem pte.kpage) (pgOfs a) v) := rfl
      have hgp := fun pte : Pte => (⟨(hbits true true pte).1, (hbits true true pte).2.1⟩ :
        ({ pte with accessed := true, dirty := true } : Pte).present = pte.present ∧
          ({ pte with accessed := true, dirty := true } : Pte).kpage = pte.kpage)
      have hk : (vm.proc 0).getPage u0 = some pte.kpage := (h.present hpte).2
      exact {
        running := h.running
        procs := by simp [perform, setFrame, h.procs]
        flatProcs := by simp [Flat.State.perform, h.flatProcs]
        alive := by rw [hp, Proc.alive_modifyPte]; exact h.alive
        flatAlive := by rw [hfp]; exact h.flatAlive
        reads := h.reads
        inodes := h.inodes
        files := h.files
        fdt := by rw [hp, hfp, Proc.fdt_modifyPte]; exact h.fdt
        nextFd := by rw [hp, hfp, Proc.nextFd_modifyPte]; exact h.nextFd
        pages := fun u => by
          rw [hp, hfp]
          by_cases hu : u = u0
          · -- the page written: its frame and the flat page take the same byte
            subst hu
            rw [AList.lookup_insert]
            have hu0 := h.pages (pgRoundDown a)
            rw [hpg] at hu0
            rcases hu0 with ⟨pte', hp', -, -, hs, -⟩ | ⟨hnone, -⟩
            · rw [hpte] at hp'
              cases hp'
              refine Or.inl ⟨{ pte with accessed := true, dirty := true },
                by rw [Proc.lookupPte_modifyPte, if_pos rfl, hpte]; rfl, (h.present hpte).1, hw,
                by rwa [Proc.findSpte_modifyPte], fun o ho => ?_⟩
              rw [hmem, Function.update_self]
              show Function.update pg.bytes (pgOfs a) v o = _
              by_cases ho' : o = pgOfs a
              · subst ho'
                rw [Function.update_self, Function.update_self]
              · rw [Function.update_of_ne ho', Function.update_of_ne ho', hbytes o ho]
            · exact absurd (hnone.symm.trans hpte) (by simp)
          · -- another page: its frame is another frame
            rw [AList.lookup_insert_ne hu]
            refine pageSim_modifyPte (h.pages u) (hbits true true) (fun pte' hp' => ?_) (fun f hf => ⟨hf, rfl⟩)
            have hne : pte'.kpage ≠ pte.kpage := fun he =>
              hu (h.frames u u0 pte.kpage (he ▸ (h.present hp').2) hk)
            rw [hmem, Function.update_of_ne hne]
        frames := fun u u' k => by
          simp only [hp, Proc.getPage_modifyPte _ _ _ hgp]
          exact h.frames u u' k
        used := fun u k => by
          simp only [hp, Proc.getPage_modifyPte _ _ _ hgp]
          exact h.used u k }

end Live

end Pintos.Vm.Analysis
