import Umka.Lib.Interleave
import Umka.Proof.Qcow2.Flat

/-!
# qcow2 reads that interleave

A qcow2 disk has one descriptor, one cluster buffer and one tag. A sector that is not in the
buffer is read in four steps with a yield in each of two of them: the tag is moved to its
cluster and the descriptor to its L2 entry; the entry arrives; the descriptor is moved to the
cluster; the cluster arrives in the buffer, and the sector is copied out when the thread next
runs. In between another thread may find a tag that announces bytes which are not there, move
the descriptor away, or fill the buffer with a cluster of its own.

`Qcow2Cond` forbids the three and no more. Under it, on an image that has a cluster in its file
for every sector, every call returns the flat disk's bytes (`PoolInv`), and so what it
returns when the calls are made one after the other.
-/

set_option autoImplicit false

namespace Umka.Proof.Qcow2

open Lib Vdisk

/-- A qcow2 read as a pool runs it. -/
def qcow2Prog (emInflate : List UInt8 → Nat → List UInt8) (d : VdiskQcow2) (k : Call d.geom) :
    Drv (ClusterCache d.geom) (KosError × List (Block d.geom.sectSize)) :=
  vdiskQcow2Read emInflate k.io d k.start k.bufs

/-! ## What a thread has in use -/

section Needs

variable {σ α κ : Type}

/-- The thread has moved the tag to a cluster that is not in the buffer yet: it waits for a
    transfer, or is about to seek for the cluster's. -/
def announces : Thread σ α κ → Bool
  | .idle => false
  | .asked _ _ _ _ => true
  | .answered _ (.lseek _ _) => true
  | .answered _ _ => false

/-- The thread's cluster is in the buffer, and the sector has not been copied out yet. -/
def copies : Thread σ α κ → Bool
  | .answered _ (.get _) => true
  | _ => false

def isDone : Drv σ α → Bool
  | .done _ => true
  | _ => false

/-- After that copy the thread's call is over. -/
def copiesLast (s : σ) : Thread σ α κ → Bool
  | .answered _ (.get k) => isDone (k s)
  | _ => false

/-- The transfer the thread waits for is the cluster's, not the L2 entry's. -/
def fills : Thread σ α κ → Bool
  | .asked _ count _ _ => count != 8
  | _ => false

end Needs

/-- The tag is looked at only while it announces nothing: neither a call begins nor one goes on
    to its next sector while another thread's cluster is on its way. And a cluster is put into
    the buffer only when nobody has one to copy from there. -/
def Qcow2Cond {ι : Type} {d : VdiskQcow2}
    (P : Pool ι (ClusterCache d.geom) (KosError × List (Block d.geom.sectSize)) (Call d.geom)) :
    PoolAct ι (Call d.geom) → Prop
  | .start _ c => c.InRange d.sectCnt ∧ ∀ j, announces (P.threads j) = false
  | .transfer i => fills (P.threads i) = true → ∀ j, copies (P.threads j) = false
  | .resume i => announces (P.threads i) = true ∨ copiesLast P.st (P.threads i) = true ∨
      ∀ j, announces (P.threads j) = false

/-! ## The disk -/

/-- A disk as it was opened on an image whose tables are in the file, and that has a standard
    cluster in the file for every sector. -/
structure StandardDisk (io : UmkaIo) (f : HostFile) (fname : List Char) (o : OpenQcow2) :
    Prop where
  fresh : FreshDisk io f fname o
  tables : TablesInFile f
  sector_le : o.disk.geom.sectSize ≤ o.disk.geom.clusterSize
  standard : ∀ s < o.disk.sectCnt, StandardSector f (headerOf f) o.disk.geom s

/-- Where the L2 entry of a sector is. -/
def entryPos (f : HostFile) (g : Geometry) (s : Nat) : Nat :=
  l2EntryPos (l1EntryAt f (headerOf f) (g.l1Index s)) (g.l2Index s)

/-- Where the cluster of a sector is. -/
def clusterPos (f : HostFile) (g : Geometry) (s : Nat) : Nat := (entryAt f (headerOf f) g s).offset

section Disk

variable {io : UmkaIo} {f : HostFile} {fname : List Char} {o : OpenQcow2} {s : Nat}

theorem StandardDisk.l1 (hd : StandardDisk io f fname o) (hs : s < o.disk.sectCnt) :
    o.disk.l1[o.disk.geom.l1Index s]?
      = some (l1EntryAt f (headerOf f) (o.disk.geom.l1Index s)) := by
  obtain ⟨-, -, -, hl1, -⟩ := hd.fresh.spec hd.tables
  rw [hl1, if_pos (hd.standard s hs).1]

theorem StandardDisk.entry (hd : StandardDisk io f fname o) (hs : s < o.disk.sectCnt) :
    entryAt f (headerOf f) o.disk.geom s = .standard (clusterPos f o.disk.geom s) := by
  obtain ⟨-, ⟨off, hoff⟩, -⟩ := hd.standard s hs
  unfold clusterPos
  rw [hoff]
  rfl

theorem StandardDisk.diskEntry (hd : StandardDisk io f fname o) (hs : s < o.disk.sectCnt) :
    diskEntry f o.disk s = some (.standard (clusterPos f o.disk.geom s)) := by
  rw [hd.fresh.diskEntry_eq hd.tables, if_pos (hd.standard s hs).1, hd.entry hs]

theorem StandardDisk.bits (hd : StandardDisk io f fname o) (hs : s < o.disk.sectCnt) :
    l1EntryAt f (headerOf f) (o.disk.geom.l1Index s) &&& l1EntryOffsetMask ≠ 0 ∧
      decodeL2 (be64 (f.span (entryPos f o.disk.geom s) 8))
        = .standard (clusterPos f o.disk.geom s) :=
  table_of_entryOf (hd.entry hs) (by simp)

theorem StandardDisk.entry_in (hd : StandardDisk io f fname o) (hs : s < o.disk.sectCnt) :
    entryPos f o.disk.geom s + 8 ≤ f.size := (hd.standard s hs).2.2.l2 (hd.bits hs).1

theorem StandardDisk.cluster_in (hd : StandardDisk io f fname o) (hs : s < o.disk.sectCnt) :
    clusterPos f o.disk.geom s + o.disk.geom.clusterSize ≤ f.size :=
  (hd.standard s hs).2.2.cluster _ (hd.entry hs)

/-- The copy out of a buffer that holds the sector's cluster. -/
theorem StandardDisk.slice (hd : StandardDisk io f fname o) (hs : s < o.disk.sectCnt)
    {c : ClusterCache o.disk.geom}
    (hb : c.cluster.bytes = f.span (clusterPos f o.disk.geom s) o.disk.geom.clusterSize) :
    c.cluster.slice? (o.disk.geom.sectorOffset s) o.disk.geom.sectSize
      = some (flatSector f (headerOf f) o.disk.geom s) := by
  rw [slice_span hd.sector_le hb, flatSector_standard (hd.entry hs)]

end Disk

/-! ## The programs between their yields -/

/-- What an arriving cluster does to the cache. -/
def storeCluster {g : Geometry} (data : List UInt8) (c : ClusterCache g) : ClusterCache g :=
  { c with cluster := c.cluster.overlay data }

section Programs

variable (emInflate : List UInt8 → Nat → List UInt8) (f : HostFile) (d : VdiskQcow2)

/-- The first `n` sectors of a call, as the flat disk has them. -/
def flats (c : Call d.geom) (n : Nat) : List (Block d.geom.sectSize) :=
  (List.range' c.start n).map (flatSector f (headerOf f) d.geom)

/-- The rest of a call that has its first `n` sectors. -/
def toGo (c : Call d.geom) (n : Nat) :
    Drv (ClusterCache d.geom) (KosError × List (Block d.geom.sectSize)) :=
  (readSectors emInflate c.io d (c.start + n) (c.bufs.drop n)).bind fun bs =>
    .done (.success, flats f d c n ++ bs)

/-- The rest of a call that has its first `n` sectors and now the next one. -/
def goOn (c : Call d.geom) (n : Nat) (b : Block d.geom.sectSize) :
    Drv (ClusterCache d.geom) (KosError × List (Block d.geom.sectSize)) :=
  (readSectors emInflate c.io d (c.start + n + 1) (c.bufs.drop (n + 1))).bind fun bs =>
    .done (.success, flats f d c n ++ b :: bs)

/-- The rest of a call whose sector `n` is in the cluster buffer. -/
def copyOut (c : Call d.geom) (n : Nat) :
    Drv (ClusterCache d.geom) (KosError × List (Block d.geom.sectSize)) :=
  .get fun cache => (Drv.ofOption (cache.cluster.slice? (d.geom.sectorOffset (c.start + n))
    d.geom.sectSize)).bind (goOn emInflate f d c n)

/-- The rest of a call that has the L2 entry of its sector `n`: it seeks to the cluster and reads
    it, and if the whole cluster comes goes on from the buffer. -/
def Fetches (c : Call d.geom) (n : Nat)
    (p : Drv (ClusterCache d.geom) (KosError × List (Block d.geom.sectSize))) : Prop :=
  ∃ k, p = .lseek (clusterPos f d.geom (c.start + n) : Nat)
      (.read d.geom.clusterSize storeCluster k) ∧
    ∀ data, k d.geom.clusterSize data = copyOut emInflate f d c n

variable {emInflate f d} {c : Call d.geom} {n : Nat}

theorem qcow2Prog_eq_toGo : qcow2Prog emInflate d c = toGo emInflate f d c 0 := rfl

theorem toGo_end : toGo emInflate f d c c.bufs.length
    = .done (.success, c.sectors.map (flatSector f (headerOf f) d.geom)) := by
  unfold toGo
  rw [List.drop_length]
  show Drv.done (KosError.success, flats f d c c.bufs.length ++ []) = _
  rw [List.append_nil]
  rfl

theorem toGo_succ (hn : n < c.bufs.length) (h64 : c.start + n < 2 ^ 64) :
    toGo emInflate f d c n
      = (qcow2ReadGuestSector emInflate c.io d (c.start + n) c.bufs[n]).bind
          (goOn emInflate f d c n) := by
  unfold toGo
  rw [List.drop_eq_getElem_cons hn, readSectors, Nat.mod_eq_of_lt h64]
  show Drv.bind (Drv.bind _ _) _ = _
  rw [Drv.bind_assoc]
  congr 1
  funext b
  show Drv.bind (Drv.bind _ _) _ = _
  rw [Drv.bind_assoc]
  rfl

theorem goOn_flat : goOn emInflate f d c n (flatSector f (headerOf f) d.geom (c.start + n))
    = toGo emInflate f d c (n + 1) := by
  unfold goOn toGo flats
  rw [List.range'_concat, List.map_append, Nat.one_mul]
  simp only [List.append_assoc]
  rfl

end Programs

/-! ## Up to the next yield -/

section Stops

variable {emInflate : List UInt8 → Nat → List UInt8} {io io' : UmkaIo} {f : HostFile}
variable {fname : List Char} {o : OpenQcow2} {env : Env} {st : ClusterCache o.disk.geom}
variable {w : World} {s : Nat} {buf : Block o.disk.geom.sectSize} {c : Call o.disk.geom} {n : Nat}

theorem toRead_sector_hit (hd : StandardDisk io f fname o) (hs : s < o.disk.sectCnt)
    (htag : o.disk.geom.clusterIndex s = st.prevClusterIndex) (hinv : CacheInv f o.disk st) :
    (qcow2ReadGuestSector emInflate io' o.disk s buf).toRead env st w
      = some (.finished (flatSector f (headerOf f) o.disk.geom s), st, w) := by
  unfold qcow2ReadGuestSector
  rw [hd.l1 hs]
  show Drv.toRead env (if _ then _ else _) st w = _
  rw [if_pos htag, hd.slice hs (hinv s _ htag (hd.diskEntry hs))]
  rfl

/-- How a sector's read ends, by what became of the table walk. -/
def afterLoad (d : VdiskQcow2) (s : Nat) (buf : Block d.geom.sectSize) :
    Load → Drv (ClusterCache d.geom) (Block d.geom.sectSize)
  | .zeroed => .done (Block.zero d.geom.sectSize)
  | .failed => .done buf
  | .loaded => .get fun cache =>
      Drv.ofOption (cache.cluster.slice? (d.geom.sectorOffset s) d.geom.sectSize)

/-- The rest of the walk once the transfer of the L2 entry is made. -/
def afterEntry (emInflate : List UInt8 → Nat → List UInt8) (io : UmkaIo) (g : Geometry)
    (entry : Block 8) (ret : Int) (data : List UInt8) : Drv (ClusterCache g) Load :=
  if ret = 0 then .done .failed
  else if be64 (entry.overlay data).bytes &&& l2EntryFormat = 0
  then loadStandard io g (be64 (entry.overlay data).bytes)
  else loadCompressed emInflate io g (be64 (entry.overlay data).bytes)

variable (emInflate io' env w buf) in
/-- A miss moves the tag and the descriptor, and waits for the L2 entry. -/
theorem toRead_sector_miss (hd : StandardDisk io f fname o) (hs : s < o.disk.sectCnt)
    (htag : o.disk.geom.clusterIndex s ≠ st.prevClusterIndex) :
    ∃ entry, (qcow2ReadGuestSector emInflate io' o.disk s buf).toRead env st w
      = some (.inRead 8 (fun _ c => c) fun ret data =>
            (afterEntry emInflate io' o.disk.geom entry ret data).bind (afterLoad o.disk s buf),
          { st with prevClusterIndex := o.disk.geom.clusterIndex s },
          atL2 w (l1EntryAt f (headerOf f) (o.disk.geom.l1Index s)) (o.disk.geom.l2Index s)) := by
  obtain ⟨htab, -⟩ := hd.bits hs
  have hload : ∃ entry, (loadCluster emInflate io' o.disk.geom
        (l1EntryAt f (headerOf f) (o.disk.geom.l1Index s)) (o.disk.geom.l2Index s)).toRead env
        { st with prevClusterIndex := o.disk.geom.clusterIndex s } w
      = some (.inRead 8 (fun _ c => c) (afterEntry emInflate io' o.disk.geom entry),
          { st with prevClusterIndex := o.disk.geom.clusterIndex s },
          atL2 w (l1EntryAt f (headerOf f) (o.disk.geom.l1Index s)) (o.disk.geom.l2Index s)) := by
    unfold loadCluster
    simp only [if_neg htab, ioRead_eq]
    exact ⟨_, rfl⟩
  obtain ⟨entry, hload⟩ := hload
  refine ⟨entry, ?_⟩
  unfold qcow2ReadGuestSector
  rw [hd.l1 hs]
  show Drv.toRead env (if _ then _ else _) st w = _
  rw [if_neg htag]
  exact Drv.toRead_bind_inRead (f := afterLoad o.disk s buf) hload

variable (emInflate io' buf) in
/-- With the L2 entry at hand, the thread seeks to the cluster and reads it. -/
theorem afterEntry_standard (hd : StandardDisk io f fname o) (hs : s < o.disk.sectCnt)
    (entry : Block 8) :
    ∃ k, (afterEntry emInflate io' o.disk.geom entry 8
        (f.span (entryPos f o.disk.geom s) 8)).bind (afterLoad o.disk s buf)
      = .lseek (clusterPos f o.disk.geom s : Nat)
          (.read o.disk.geom.clusterSize storeCluster k) ∧
      ∀ data, k o.disk.geom.clusterSize data = afterLoad o.disk s buf .loaded := by
  obtain ⟨hfmt, hz, hoff⟩ := bits_of_standard (hd.bits hs).2
  have hpos := o.disk.geom.clusterSize_pos
  have hbytes : (entry.overlay (f.span (entryPos f o.disk.geom s) 8)).bytes
      = f.span (entryPos f o.disk.geom s) 8 := Block.bytes_overlay_full (by simp)
  unfold afterEntry
  rw [if_neg (by decide), hbytes, if_pos hfmt]
  unfold loadStandard
  rw [if_neg (not_not.mpr hz), hoff, ioReadInto_eq]
  refine ⟨_, rfl, fun data => ?_⟩
  show Drv.bind (if (o.disk.geom.clusterSize : Int) = 0 then _ else _) _ = _
  rw [if_neg (by omega)]
  rfl

variable (emInflate env) in
/-- **Up to the next yield** from a cache that is in order: the call ends with the flat disk's
    sectors, or stops at the L2 entry of some sector that is not in the buffer. -/
theorem toRead_toGo (hd : StandardDisk io f fname o) (hr : c.InRange o.disk.sectCnt)
    (hinv : CacheInv f o.disk st) (hf : w.file = f) :
    ∀ m n, n + m = c.bufs.length →
      (toGo emInflate f o.disk c n).toRead env st w
        = some (.finished (.success, c.sectors.map (flatSector f (headerOf f) o.disk.geom)),
            st, w) ∨
      ∃ j k w', j < c.bufs.length ∧ w'.file = f ∧
        w'.pos = entryPos f o.disk.geom (c.start + j) ∧
        (toGo emInflate f o.disk c n).toRead env st w
          = some (.inRead 8 (fun _ c => c) k,
              { st with prevClusterIndex := o.disk.geom.clusterIndex (c.start + j) }, w') ∧
        Fetches emInflate f o.disk c j (k 8 (f.span (entryPos f o.disk.geom (c.start + j)) 8)) := by
  have h64 := hd.fresh.sectCnt_le hd.tables
  unfold Call.InRange at hr
  intro m
  induction m with
  | zero =>
    intro n hn
    obtain rfl : n = c.bufs.length := hn
    rw [toGo_end]
    exact .inl rfl
  | succ m ih =>
    intro n hn
    have hlt : n < c.bufs.length := by omega
    have hs : c.start + n < o.disk.sectCnt := by omega
    rw [toGo_succ hlt (by omega)]
    by_cases htag : o.disk.geom.clusterIndex (c.start + n) = st.prevClusterIndex
    · rw [Drv.toRead_bind_finished (toRead_sector_hit hd hs htag hinv), goOn_flat]
      exact ih (n + 1) (by omega)
    · obtain ⟨entry, hmiss⟩ := toRead_sector_miss emInflate c.io env w c.bufs[n] hd hs htag
      obtain ⟨k, hk, hload⟩ := afterEntry_standard emInflate c.io c.bufs[n] hd hs entry
      refine .inr ⟨n, _, _, hlt, ?_, ?_, Drv.toRead_bind_inRead hmiss, ?_⟩
      · rw [file_atL2, hf]
      · exact pos_atL2
      · refine ⟨fun ret data => (k ret data).bind (goOn emInflate f o.disk c n), ?_, fun data => ?_⟩
        · rw [hk]
          rfl
        · exact congrArg (fun p => p.bind (goOn emInflate f o.disk c n)) (hload data)

end Stops

/-! ## The pool -/

section Pool

variable {emInflate : List UInt8 → Nat → List UInt8} {io : UmkaIo} {f : HostFile}
variable {fname : List Char} {o : OpenQcow2} {env : Env} {ι : Type}

/-- Where a thread may be, and what it relies on there: on the tag while its cluster is on its
    way, on the descriptor while a transfer is outstanding, on the buffer until it has copied. -/
inductive ThreadOk (emInflate : List UInt8 → Nat → List UInt8) (f : HostFile) (d : VdiskQcow2)
    (st : ClusterCache d.geom) (w : World) :
    Thread (ClusterCache d.geom) (KosError × List (Block d.geom.sectSize)) (Call d.geom) → Prop
  | idle : ThreadOk emInflate f d st w .idle
  | entry (c : Call d.geom) (n : Nat)
      (k : Int → List UInt8 →
        Drv (ClusterCache d.geom) (KosError × List (Block d.geom.sectSize)))
      (hr : c.InRange d.sectCnt) (hn : n < c.bufs.length)
      (htag : st.prevClusterIndex = d.geom.clusterIndex (c.start + n))
      (hpos : w.pos = entryPos f d.geom (c.start + n))
      (hk : Fetches emInflate f d c n (k 8 (f.span (entryPos f d.geom (c.start + n)) 8))) :
      ThreadOk emInflate f d st w (.asked c 8 (fun _ s => s) k)
  | fetch (c : Call d.geom) (n : Nat)
      (p : Drv (ClusterCache d.geom) (KosError × List (Block d.geom.sectSize)))
      (hr : c.InRange d.sectCnt) (hn : n < c.bufs.length)
      (htag : st.prevClusterIndex = d.geom.clusterIndex (c.start + n))
      (hp : Fetches emInflate f d c n p) :
      ThreadOk emInflate f d st w (.answered c p)
  | cluster (c : Call d.geom) (n : Nat)
      (k : Int → List UInt8 →
        Drv (ClusterCache d.geom) (KosError × List (Block d.geom.sectSize)))
      (hr : c.InRange d.sectCnt) (hn : n < c.bufs.length)
      (htag : st.prevClusterIndex = d.geom.clusterIndex (c.start + n))
      (hpos : w.pos = clusterPos f d.geom (c.start + n))
      (hk : ∀ data, k d.geom.clusterSize data = copyOut emInflate f d c n) :
      ThreadOk emInflate f d st w (.asked c d.geom.clusterSize storeCluster k)
  | loaded (c : Call d.geom) (n : Nat) (hr : c.InRange d.sectCnt) (hn : n < c.bufs.length)
      (hbuf : st.cluster.bytes = f.span (clusterPos f d.geom (c.start + n)) d.geom.clusterSize) :
      ThreadOk emInflate f d st w (.answered c (copyOut emInflate f d c n))

/-- At most one thread's cluster is on its way, and when none is the cache is in order. -/
structure PoolInv (emInflate : List UInt8 → Nat → List UInt8) (f : HostFile) (d : VdiskQcow2)
    (P : Pool ι (ClusterCache d.geom) (KosError × List (Block d.geom.sectSize)) (Call d.geom)) :
    Prop where
  file : P.world.file = f
  log : ∀ e ∈ P.log, e.1.InRange d.sectCnt ∧
    e.2 = (.success, e.1.sectors.map (flatSector f (headerOf f) d.geom))
  threads : ∀ i, ThreadOk emInflate f d P.st P.world (P.threads i)
  one : ∀ i j, announces (P.threads i) = true → announces (P.threads j) = true → i = j
  cache : (∀ j, announces (P.threads j) = false) → CacheInv f d P.st

section Moves

variable {d : VdiskQcow2} {st st' : ClusterCache d.geom} {w w' : World}
variable {t : Thread (ClusterCache d.geom) (KosError × List (Block d.geom.sectSize)) (Call d.geom)}

theorem announces_fetch {c : Call d.geom} {n : Nat}
    {p : Drv (ClusterCache d.geom) (KosError × List (Block d.geom.sectSize))}
    (hp : Fetches emInflate f d c n p) :
    announces (.answered c p : Thread _ _ (Call d.geom)) = true := by
  obtain ⟨k, rfl, -⟩ := hp
  rfl

/-- A thread that announces nothing relies on the buffer at most. -/
theorem ThreadOk.move (h : ThreadOk emInflate f d st w t) (ht : announces t = false)
    (hst : st'.cluster = st.cluster) : ThreadOk emInflate f d st' w' t := by
  cases h with
  | idle => exact .idle
  | entry c n k hr hn htag hpos hk => cases ht
  | fetch c n p hr hn htag hp => rw [announces_fetch hp] at ht; cases ht
  | cluster c n k hr hn htag hpos hk => cases ht
  | loaded c n hr hn hbuf => exact .loaded c n hr hn (by rw [hst, hbuf])

/-- One that has nothing to copy either relies on nothing. -/
theorem ThreadOk.move_idle (h : ThreadOk emInflate f d st w t) (ht : announces t = false)
    (hc : copies t = false) : ThreadOk emInflate f d st' w' t := by
  cases h with
  | idle => exact .idle
  | entry c n k hr hn htag hpos hk => cases ht
  | fetch c n p hr hn htag hp => rw [announces_fetch hp] at ht; cases ht
  | cluster c n k hr hn htag hpos hk => cases ht
  | loaded c n hr hn hbuf => cases hc

end Moves

variable [DecidableEq ι] {i : ι} {c : Call o.disk.geom}
variable {P P' : Pool ι (ClusterCache o.disk.geom)
  (KosError × List (Block o.disk.geom.sectSize)) (Call o.disk.geom)}

omit [DecidableEq ι] in
theorem PoolInv.others (h : PoolInv emInflate f o.disk P)
    (hi : announces (P.threads i) = true) : ∀ j, j ≠ i → announces (P.threads j) = false := by
  intro j hj
  cases hann : announces (P.threads j) with
  | false => rfl
  | true => exact absurd (h.one j i hann hi) hj

/-- Thread `i` moves to `t` while nobody else announces anything. -/
theorem PoolInv.update {st : ClusterCache o.disk.geom} {w : World}
    {t : Thread (ClusterCache o.disk.geom) (KosError × List (Block o.disk.geom.sectSize))
      (Call o.disk.geom)}
    (h : PoolInv emInflate f o.disk P)
    (hothers : ∀ j, j ≠ i → announces (P.threads j) = false) (hf : w.file = f)
    (ht : ThreadOk emInflate f o.disk st w t)
    (hkeep : ∀ j, j ≠ i → ThreadOk emInflate f o.disk st w (P.threads j))
    (hcache : announces t = false → CacheInv f o.disk st) :
    PoolInv emInflate f o.disk ⟨st, w, Function.update P.threads i t, P.log⟩ := by
  have honly : ∀ j, announces (Function.update P.threads i t j) = true → j = i := by
    refine (Function.forall_update_iff P.threads fun j t => announces t = true → j = i).mpr
      ⟨fun _ => rfl, fun j hj hann => ?_⟩
    rw [hothers j hj] at hann
    cases hann
  refine ⟨hf, h.log, ?_, fun j k hj hk => (honly j hj).trans (honly k hk).symm, fun hnone => ?_⟩
  · exact (Function.forall_update_iff P.threads fun _ t => ThreadOk emInflate f o.disk st w t).mpr
      ⟨ht, hkeep⟩
  · have hti : announces (Function.update P.threads i t i) = false := hnone i
    rw [Function.update_self] at hti
    exact hcache hti

/-- A call ends, and whoever's cluster is on its way is not disturbed. -/
theorem PoolInv.finish (h : PoolInv emInflate f o.disk P) (hr : c.InRange o.disk.sectCnt)
    (hi : announces (P.threads i) = false) :
    PoolInv emInflate f o.disk ⟨P.st, P.world, Function.update P.threads i .idle, P.log ++
      [(c, .success, c.sectors.map (flatSector f (headerOf f) o.disk.geom))]⟩ := by
  have hann : ∀ j, announces (Function.update P.threads i .idle j) = announces (P.threads j) := by
    refine (Function.forall_update_iff P.threads fun j t =>
      announces t = announces (P.threads j)).mpr ⟨hi.symm, fun _ _ => rfl⟩
  refine ⟨h.file, fun e he => ?_, ?_, fun j k hj hk => ?_, fun hnone => h.cache fun j => ?_⟩
  · rcases List.mem_append.mp he with hold | hnew
    · exact h.log e hold
    · rw [List.mem_singleton.mp hnew]
      exact ⟨hr, rfl⟩
  · exact (Function.forall_update_iff P.threads fun _ t =>
      ThreadOk emInflate f o.disk P.st P.world t).mpr ⟨.idle, fun j _ => h.threads j⟩
  · exact h.one j k (hann j ▸ hj) (hann k ▸ hk)
  · exact hann j ▸ hnone j

/-- A thread looks at the tag while it announces nothing. -/
theorem PoolInv.goesOn (hd : StandardDisk io f fname o) (h : PoolInv emInflate f o.disk P)
    (hnone : ∀ j, announces (P.threads j) = false) (hr : c.InRange o.disk.sectCnt) {n : Nat}
    (hn : n ≤ c.bufs.length)
    (hadv : P.advance env i c (toGo emInflate f o.disk c n) = some P') :
    PoolInv emInflate f o.disk P' := by
  unfold Pool.advance at hadv
  rcases toRead_toGo emInflate env hd hr (h.cache hnone) h.file
    (c.bufs.length - n) n (by omega) with hend | ⟨j, k, w', hj, hf, hpos, hstop, hk⟩
  · rw [hend] at hadv
    cases hadv
    exact h.finish hr (hnone i)
  · rw [hstop] at hadv
    cases hadv
    refine h.update (fun j _ => hnone j) hf (.entry c j k hr hj rfl hpos hk) (fun j _ => ?_) nofun
    exact (h.threads j).move (hnone j) rfl

theorem PoolInv.transfer (hd : StandardDisk io f fname o) (hfull : env.AllFull)
    (h : PoolInv emInflate f o.disk P)
    (hc : fills (P.threads i) = true → ∀ j, copies (P.threads j) = false) {count : Nat}
    {store : List UInt8 → ClusterCache o.disk.geom → ClusterCache o.disk.geom}
    {k : Int → List UInt8 →
      Drv (ClusterCache o.disk.geom) (KosError × List (Block o.disk.geom.sectSize))}
    (hth : P.threads i = .asked c count store k) :
    PoolInv emInflate f o.disk { P with
      st := store (P.world.readData env count) P.st
      world := P.world.afterRead env count
      threads := Function.update P.threads i
        (.answered c (k (P.world.readRet env count) (P.world.readData env count))) } := by
  have hothers := h.others (i := i) (by rw [hth]; rfl)
  have hok := h.threads i
  rw [hth] at hok
  cases hok with
  | entry _ n _ hr hn htag hpos hk =>
    have hs : c.start + n < o.disk.sectCnt := by unfold Call.InRange at hr; omega
    have hw : P.world.Whole env 8 :=
      World.whole_of_full (hfull _) (by rw [hpos, h.file]; exact hd.entry_in hs)
    rw [hw.readRet, hw.readData, h.file, hpos]
    refine h.update hothers h.file (.fetch c n _ hr hn htag hk) (fun j hj => ?_) fun hno => ?_
    · exact (h.threads j).move (hothers j hj) rfl
    · have hann := announces_fetch hk
      exact absurd (hann.symm.trans hno) nofun
  | cluster _ n _ hr hn htag hpos hk =>
    have hs : c.start + n < o.disk.sectCnt := by unfold Call.InRange at hr; omega
    have hw : P.world.Whole env o.disk.geom.clusterSize :=
      World.whole_of_full (hfull _) (by rw [hpos, h.file]; exact hd.cluster_in hs)
    have hcopy : ∀ j, copies (P.threads j) = false := by
      apply hc
      have := o.disk.geom.clusterSize_ge
      rw [hth]
      exact bne_iff_ne.mpr (by omega)
    rw [hw.readRet, hw.readData, h.file, hpos, hk]
    have hbuf : (storeCluster (f.span (clusterPos f o.disk.geom (c.start + n))
        o.disk.geom.clusterSize) P.st).cluster.bytes
        = f.span (clusterPos f o.disk.geom (c.start + n)) o.disk.geom.clusterSize :=
      Block.bytes_overlay_full (by simp)
    refine h.update hothers h.file (.loaded c n hr hn hbuf) (fun j hj => ?_) fun _ => ?_
    · exact (h.threads j).move_idle (hothers j hj) (hcopy j)
    · -- every sector under the tag has the entry whose cluster has just come
      intro t off ht het
      rw [diskEntry_congr (ht.trans htag), hd.diskEntry hs, Option.some.injEq,
        Entry.standard.injEq] at het
      exact het ▸ hbuf

theorem PoolInv.resume (hd : StandardDisk io f fname o) (h : PoolInv emInflate f o.disk P)
    {p : Drv (ClusterCache o.disk.geom) (KosError × List (Block o.disk.geom.sectSize))}
    (hc : announces (P.threads i) = true ∨ copiesLast P.st (P.threads i) = true ∨
      ∀ j, announces (P.threads j) = false)
    (hth : P.threads i = .answered c p) (hadv : P.advance env i c p = some P') :
    PoolInv emInflate f o.disk P' := by
  have hok := h.threads i
  rw [hth] at hok hc
  cases hok with
  | fetch _ n _ hr hn htag hp =>
    have hothers := h.others (i := i) (by rw [hth]; exact announces_fetch hp)
    obtain ⟨k, rfl, hk⟩ := hp
    cases hadv
    refine h.update hothers (World.file_lseek.trans h.file)
      (.cluster c n k hr hn htag World.pos_lseek_nat hk) (fun j hj => ?_) nofun
    exact (h.threads j).move (hothers j hj) rfl
  | loaded _ n hr hn hbuf =>
    have hr' := hr
    unfold Call.InRange at hr'
    have h64 := hd.fresh.sectCnt_le hd.tables
    -- the copy, and what comes after it
    have hcopy : (Drv.ofOption (P.st.cluster.slice? (o.disk.geom.sectorOffset (c.start + n))
        o.disk.geom.sectSize)).bind (goOn emInflate f o.disk c n)
          = toGo emInflate f o.disk c (n + 1) := by
      rw [hd.slice (by omega) hbuf]
      exact goOn_flat
    have hadv' : P.advance env i c (toGo emInflate f o.disk c (n + 1)) = some P' := by
      rw [← hadv, ← hcopy]
      rfl
    have hi : announces (P.threads i) = false := by rw [hth]; rfl
    rcases Nat.lt_or_eq_of_le (show n + 1 ≤ c.bufs.length from hn) with hmore | hlast
    · refine h.goesOn hd ?_ hr hn hadv'
      rcases hc with hann | hlast | hnone
      · cases hann
      · -- with sectors to go the copy is followed by a look at the tag
        have hs : c.start + (n + 1) < o.disk.sectCnt := by omega
        have hnext : copiesLast P.st (.answered c (copyOut emInflate f o.disk c n) :
            Thread _ _ (Call o.disk.geom)) = false := by
          show isDone (Drv.bind _ _) = false
          rw [hcopy, toGo_succ hmore (by omega)]
          unfold qcow2ReadGuestSector
          rw [hd.l1 hs]
          rfl
        rw [hnext] at hlast
        cases hlast
      · exact hnone
    · rw [hlast, toGo_end] at hadv'
      cases hadv'
      exact h.finish hr hi

theorem PoolInv.step {act : PoolAct ι (Call o.disk.geom)} (hd : StandardDisk io f fname o)
    (hfull : env.AllFull) (h : PoolInv emInflate f o.disk P) (hc : Qcow2Cond P act)
    (hs : poolStep env (qcow2Prog emInflate o.disk) P act = some P') :
    PoolInv emInflate f o.disk P' := by
  cases act with
  | start i c =>
    obtain ⟨-, hadv⟩ := poolStep_start hs
    rw [qcow2Prog_eq_toGo (f := f)] at hadv
    exact h.goesOn hd hc.2 hc.1 (Nat.zero_le _) hadv
  | transfer i =>
    obtain ⟨c, count, store, k, hth, rfl⟩ := poolStep_transfer hs
    exact h.transfer hd hfull hc hth
  | resume i =>
    obtain ⟨c, p, hth, hadv⟩ := poolStep_resume hs
    exact h.resume hd hc hth hadv

omit [DecidableEq ι] in
theorem poolInv_init (hd : StandardDisk io f fname o) {w : World} (hf : w.file = f) :
    PoolInv emInflate f o.disk (Pool.init o.cache w
      : Pool ι (ClusterCache o.disk.geom) (KosError × List (Block o.disk.geom.sectSize))
        (Call o.disk.geom)) := by
  obtain ⟨-, -, -, -, htag⟩ := hd.fresh.spec hd.tables
  exact ⟨hf, fun e he => absurd he List.not_mem_nil, fun _ => .idle, fun i j hi _ => (by cases hi),
    fun _ => cacheInv_empty htag⟩

/-- One after the other is what a pool compares with. -/
theorem seqRun_qcow2Prog {d : VdiskQcow2} :
    ∀ (ks : List (Call d.geom)) (st : ClusterCache d.geom) (w : World),
      seqRun env (qcow2Prog emInflate d) ks st w = runCalls emInflate env d ks st w
  | [], _, _ => rfl
  | k :: ks, st, w => by
    simp only [seqRun, runCalls, seqRun_qcow2Prog ks]
    rfl

/-- **Calls that keep off each other's tag, position and buffer** return the flat disk's bytes,
    which is what they return one after the other, in whatever order. -/
theorem sequential_of_cond (hd : StandardDisk io f fname o) (hfull : env.AllFull) {w : World}
    (hf : w.file = f) {acts : List (PoolAct ι (Call o.disk.geom))}
    (hmeets : MeetsAll (poolStep env (qcow2Prog emInflate o.disk)) Qcow2Cond
      (Pool.init o.cache w) acts)
    (hrun : runActs (poolStep env (qcow2Prog emInflate o.disk)) (Pool.init o.cache w) acts
      = some P) :
    Sequential env (qcow2Prog emInflate o.disk) o.cache w P.log := by
  have hinv : PoolInv emInflate f o.disk P := invariant_of_step (I := PoolInv emInflate f o.disk)
    (fun _ _ _ h hc hs => h.step hd hfull hc hs) acts _ P (poolInv_init hd hf) hmeets hrun
  obtain ⟨st', w', hseq, -⟩ := @runCalls_flat emInflate _ _ _ _ hd.fresh hd.tables
    hd.sector_le hd.standard _ hfull _ hf (P.log.map Prod.fst) fun k hk => by
      obtain ⟨e, he, rfl⟩ := List.mem_map.mp hk
      exact (hinv.log e he).1
  refine ⟨P.log, st', w', .refl _, ?_⟩
  rw [seqRun_qcow2Prog, hseq, List.map_map]
  exact congrArg (fun l => some (l, st', w'))
    (List.map_inj_left.mpr fun e he => (hinv.log e he).2.symm)

end Pool

end Umka.Proof.Qcow2
