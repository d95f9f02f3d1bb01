import Evos.Kmain.UsableFrames
import Evos.Task.KernelRun

/-! # The kernel that `init_mem` leaves

From the memory map to the invariant of the running kernel. The model behind it keeps the words of the
frame bitmap apart from memory; over the bytes of memory the identity mapping maps the same pages to the
same frames and takes as much memory. -/

namespace Evos
open ByteMemory Outcome Runs
set_option autoImplicit false

section Startup
variable {b : BootInfo} {scan : Scan} {m : Mem} {depth : ℕ} {boot s : Kernel}

/-! ## The invariant -/

theorem afterInitFrames_bitmap (hs : scan.Sound b.imageEnd) : (afterInitFrames m scan).Bitmap := by
  have hsize : (frameBitmap scan.memTotalBytes ⟨m, scan.baseAddr⟩).size = bitmapWords scan :=
    frameBitmap_size hs.total
  refine ⟨?_, ?_⟩
  · unfold afterInitFrames
    rw [List.length_map, List.length_range, hsize]
    exact bitmapWords_le hs
  · intro w hw
    obtain ⟨i, _, rfl⟩ := List.mem_map.mp hw
    exact load32_lt _ _

theorem afterInitFrames_startup (hs : scan.Sound b.imageEnd) (hlen : 16 * 1024 * 1024 < scan.regionLen)
    (hout : (afterInitFrames m scan).OutsideHeap) : (afterInitFrames m scan).Startup where
  room := afterInitFrames_hasRoom hs hlen m
  bitmap := afterInitFrames_bitmap hs
  noHeap := rfl
  neat := fun _ _ hne => absurd rfl hne
  paging := rfl
  midpoints := rfl
  tasks := fun _ _ => rfl
  outside := hout

theorem initMem_ok (h : initMem depth b m = .ok boot) :
    ∃ scan, readMap b = .ok scan ∧ initPaging depth (afterInitFrames m scan) = .ok () boot := by
  unfold initMem at h
  cases hscan : readMap b with
  | error e =>
    rw [hscan] at h
    cases h
  | ok scan =>
    rw [hscan] at h
    dsimp only at h
    refine ⟨scan, rfl, ?_⟩
    cases hp : initPaging depth (afterInitFrames m scan) with
    | error e t =>
      rw [show (initPaging depth).run (afterInitFrames m scan) = _ from hp] at h
      cases h
    | ok a t =>
      rw [show (initPaging depth).run (afterInitFrames m scan) = _ from hp] at h
      cases h
      rfl

/-- Every state reached after `init_mem` meets the invariant, if the blocks of the boot stay out of the
heap's addresses. -/
theorem settled_of_initMem (hmap : ValidMap b) (himage : 0 < b.imageEnd)
    (hout : ∀ scan, readMap b = .ok scan → (afterInitFrames m scan).OutsideHeap)
    (h : initMem depth b m = .ok boot) (r : Run (kernelStep depth) KernelSafe boot s) :
    ∃ top, s.Settled top := by
  obtain ⟨scan, hscan, hb⟩ := initMem_ok h
  obtain ⟨hs, hlen⟩ := readMap_sound himage hmap hscan
  exact ⟨_, settled_of_run (afterInitFrames_startup hs hlen (hout scan hscan)) hb r⟩

/-! ## The same boot over the bytes of memory -/

theorem initIdentity_ok {o : Kernel} (ho : o.HasRoom) (hk : o.kernelHeap = false)
    (h : initIdentity depth o = .ok () s) : Booting o (identityPages o.bootBase)
      (identityPages o.bootBase) s := by
  cases depth with
  | zero =>
    have hstop : Ends (initIdentity 0 o) (fun _ _ => False) (fun _ => True) := by
      unfold initIdentity makeKernelDirectory
      exact ends_bind (Q := fun _ _ => False)
        (ends_bind (Q := fun _ _ => False) (ends_throw trivial) fun _ _ h => h.elim)
        fun _ _ h => h.elim
    exact (hstop.ok h).elim
  | succ depth =>
    obtain ⟨n, hboot, hend, hbefore⟩ := (initIdentity_ends depth ho hk).ok h
    have hstop : BehindIdentity o.bootBase n := by
      have hfirst := hboot.first
      unfold BehindIdentity
      omega
    have hn : identityPages o.bootBase = n := by
      refine Nat.le_antisymm (le_identityPages_iff.mpr hstop) (Nat.not_lt.mp fun hlt => ?_)
      exact hbefore _ hlt (le_identityPages_iff.mp (Nat.le_refl _))
    rw [hn]
    exact hboot

/-- Where the identity mapping returns in both models, it has taken the same memory and mapped the same
pages to the same frames. -/
theorem rawInitIdentity_agrees (hmap : SeparateMap b) (himage : 0 < b.imageEnd)
    (hscan : readMap b = .ok scan) {t : RawKernel}
    (ht : rawInitIdentity (rawAfterInitFrames m scan) = .ok () t)
    (h : initIdentity depth (afterInitFrames m scan) = .ok () s) :
    t.memFirstUnused = s.memFirstUnused ∧
      ∀ v < identityPages (afterInitFrames m scan).bootBase,
        load32 t.mem (tableAddress (afterInitFrames m scan).bootBase (v / 1024) + 4 * (v % 1024)) =
          4096 * v + 7 ∧ (s.pageAt v).present = true ∧ (s.pageAt v).address = v := by
  obtain ⟨hs, hlen⟩ := readMap_sound himage hmap.valid hscan
  obtain ⟨hready, _⟩ := rawAfterInitFrames_ready hs hlen (readMap_counts hmap himage hscan) m
  have hboot := initIdentity_ok (afterInitFrames_hasRoom hs hlen m) rfl h
  have hraw := rawInitIdentity_ok hready ht
  have hbase : (rawAfterInitFrames m scan).bootBase = (afterInitFrames m scan).bootBase := rfl
  rw [hbase] at hraw
  refine ⟨?_, fun v hv => ⟨hraw.load_page hready hv, (hboot.mapped v hv).2⟩⟩
  rw [hraw.first, hboot.first, hbase]

end Startup

end Evos
