import NocyWalletFeed.Stream

/-!
# The restart height of a reset

* `Kept`, `ResetSafe` : the blocks below the restart height are those of the snapshot of the reset;
* `ReorgShallow` : of the processed blocks, only the last is replaced, and not below a block that names it;
* `resets_safe_iff` : the resets of a run are safe exactly when the reorgs it meets are shallow.
-/

namespace NocyWalletFeed
open Codec Machine

/-- A snapshot has a block at the same height and with the same hash. -/
def Kept (db : Database) (blockMeta : BlockMeta) : Prop :=
  getBlockHashAtHeight db blockMeta.height = some blockMeta.hash

instance (db : Database) (blockMeta : BlockMeta) : Decidable (Kept db blockMeta) := inferInstanceAs (Decidable (_ = _))

/-- A reset sent by an iteration names a height below which the processed blocks are those of its snapshot. -/
def ResetSafe (pre : List (Visit StreamState Iteration StreamAction)) (v : Visit StreamState Iteration StreamAction) :
    Prop :=
  ∀ db, v.input.snapshot = .ok db → ∀ safeRestartHeight reason,
    .sent (.control (.resetRequiredAt safeRestartHeight reason)) ∈ v.output →
      ∀ blockMeta ∈ processedBy pre, blockMeta.height < safeRestartHeight → Kept db blockMeta

/-- The snapshot has a block at the current height that names the block processed last. -/
def NamesLast (db : Database) (s : StreamState) : Prop :=
  ∃ b, db.blockAt s.currentHeight = some b ∧ s.lastBlockHash = some (hexEncode b.parentHash)

/-- Of the blocks processed before an iteration that meets a defect, its snapshot has all but the last, and the last too
where it has a block that names it. -/
def ReorgShallow (args : AssemblyArgs) (pre : List (Visit StreamState Iteration StreamAction))
    (v : Visit StreamState Iteration StreamAction) : Prop :=
  ∀ db readyHeight batch, Fetched args v.before v.input db readyHeight batch →
    ¬ Linked v.before.currentHeight (boundaryHash db v.before) batch → 0 < v.input.sends →
      ∀ blockMeta ∈ processedBy pre,
        blockMeta.height + 1 < v.before.currentHeight ∨ NamesLast db v.before → Kept db blockMeta

/-! ## The event of a reset -/

theorem defectEvent_eq (expectedHeight : Int) (block : BlockMeta) :
    ∃ reason, defectEvent expectedHeight block = .resetRequiredAt (max (expectedHeight - 1) 0) reason := by
  unfold defectEvent
  split_ifs with hheight
  · exact ⟨_, rfl⟩
  · rw [not_not.mp hheight]
    exact ⟨_, rfl⟩

theorem resetRequiredAt_inj {a b : Int} {reason reason' : String}
    (h : ControlEvent.resetRequiredAt a reason = .resetRequiredAt b reason') : a = b :=
  toString_int_injective (ControlEvent.resetRequired.inj h).1

section Defect
variable {fromHeight : Int} {fromCursor : Option SequenceKey} {processed : List BlockMeta} {s : StreamState}
  {args : AssemblyArgs} {e : Iteration} {db : Database} {readyHeight : Int} {batch : List BlockMeta}

theorem Fetched.batch_range (h : Fetched args s e db readyHeight batch) : ∃ toHeight, s.currentHeight ≤ toHeight ∧
    getBlocksInRange db s.currentHeight toHeight = batch := by
  refine ⟨_, le_min ?_ h.le_ready, h.batch_eq⟩
  rw [BACKLOG_BATCH_SIZE]
  omega

theorem Fetched.head_eq (h : Fetched args s e db readyHeight batch) {b : BlockRow}
    (hb : db.blockAt s.currentHeight = some b) : ∃ rest, batch = b.toMeta :: rest := by
  obtain ⟨toHeight, hle, hbatch⟩ := h.batch_range
  exact ⟨_, by rw [← hbatch, getBlocksInRange_of_some hb hle]⟩

/-- The first defect of a batch lies past its first block exactly when that block continues the processed ones. -/
theorem StreamInv.namesLast_iff (hinv : StreamInv fromHeight fromCursor processed s) (hne : processed ≠ [])
    (h : Fetched args s e db readyHeight batch) {pre post : List BlockMeta} {block : BlockMeta}
    (hbatch : batch = pre ++ block :: post) (hlinked : Linked s.currentHeight (boundaryHash db s) pre)
    (hdefect : Defective (s.currentHeight + pre.length) (lastHash (boundaryHash db s) pre) block) :
    NamesLast db s ↔ pre ≠ [] := by
  obtain ⟨last, hlast⟩ : ∃ last, s.lastBlockHash = some last := by
    rw [hinv.hash, lastHash, List.getLast?_eq_some_getLast hne]
    exact ⟨_, rfl⟩
  have hboundary : boundaryHash db s = some last := by
    rw [boundaryHash, hlast]
    simp
  rw [hboundary] at hlinked hdefect
  constructor
  · rintro ⟨b, hb, hnames⟩ rfl
    obtain ⟨rest, hrest⟩ := h.head_eq hb
    obtain ⟨rfl, -⟩ := List.cons.inj (hbatch.symm.trans hrest)
    have hheight : b.toMeta.height = s.currentHeight := Database.height_of_blockAt hb
    obtain rfl := Option.some.inj (hlast.symm.trans hnames)
    refine absurd hdefect (not_defective_iff.mpr ⟨by simpa using hheight, fun hash hhash => ?_⟩)
    exact Option.some.inj hhash
  · intro hpre
    cases pre with
    | nil => exact absurd rfl hpre
    | cons first pre =>
      have hmem : first ∈ fetchBatch db s readyHeight := by
        rw [h.batch_eq, hbatch]
        exact List.mem_cons_self
      obtain ⟨b, hb, rfl⟩ := Option.map_eq_some_iff.mp (mem_getBlocksInRange.mp hmem).2.2
      rw [hlinked.1] at hb
      exact ⟨b, hb, by rw [hlast]; exact congrArg some (hlinked.2.1 last rfl).symm⟩

end Defect

/-! ## Safe resets -/

section Safe
variable {args : AssemblyArgs} {fromHeight : Int} {fromCursor : Option SequenceKey} {iterations : List Iteration}
  {pre post : List (Visit StreamState Iteration StreamAction)} {v : Visit StreamState Iteration StreamAction}

theorem height_of_mem_processedBy (h : streamRun args fromHeight fromCursor iterations = pre ++ v :: post)
    {blockMeta : BlockMeta} (hmem : blockMeta ∈ processedBy pre) :
    fromHeight ≤ blockMeta.height ∧ blockMeta.height < v.before.currentHeight := by
  have hinv := streamInv_before h
  have hheight : blockMeta.height ∈ (processedBy pre).map (·.height) := List.mem_map_of_mem hmem
  rw [hinv.linked.map_height] at hheight
  obtain ⟨hlo, hhi⟩ := Int.mem_range_iff.mp hheight
  exact ⟨hlo, by rwa [hinv.height]⟩

/-- The reset of a defective batch: which of the processed blocks lie below its restart height. -/
theorem exists_resetRequiredAt (h0 : 0 ≤ fromHeight)
    (h : streamRun args fromHeight fromCursor iterations = pre ++ v :: post) {db : Database} {readyHeight : Int}
    {batch : List BlockMeta} (hfetched : Fetched args v.before v.input db readyHeight batch)
    (hlinked : ¬ Linked v.before.currentHeight (boundaryHash db v.before) batch) :
    ∃ safeRestartHeight reason,
      v.output = [StreamAction.sent (.control (.resetRequiredAt safeRestartHeight reason))].take v.input.sends ∧
      ∀ blockMeta ∈ processedBy pre, blockMeta.height < safeRestartHeight ↔
        blockMeta.height + 1 < v.before.currentHeight ∨ NamesLast db v.before := by
  have hinv := streamInv_before h
  obtain ⟨event, hvalid, heq⟩ := processBatch_reset args v.input db hlinked
  obtain ⟨linked, block, rest, hbatch, hpre, hdefect, rfl⟩ := validateBlocks_eq_some_iff.mp hvalid
  obtain ⟨reason, hevent⟩ := defectEvent_eq (v.before.currentHeight + linked.length) block
  refine ⟨_, reason, by rw [streamRun_output h, hfetched.streamStep_eq, heq, hevent], fun blockMeta hmem => ?_⟩
  obtain ⟨hlo, hhi⟩ := height_of_mem_processedBy h hmem
  rw [hinv.namesLast_iff (List.ne_nil_of_mem hmem) hfetched hbatch hpre hdefect, lt_max_iff]
  cases linked with
  | nil =>
    simp only [List.length_nil]
    constructor
    · rintro (hlt | hneg)
      · exact Or.inl (by omega)
      · omega
    · rintro (hlt | hne)
      · exact Or.inl (by omega)
      · exact absurd rfl hne
  | cons first linked =>
    refine iff_of_true (Or.inl ?_) (Or.inr (List.cons_ne_nil first linked))
    rw [List.length_cons]
    push_cast
    omega

/-- A control event is the reset of a defective batch. -/
theorem fetched_of_control (h : streamRun args fromHeight fromCursor iterations = pre ++ v :: post)
    {event : ControlEvent} (hmem : .sent (.control event) ∈ v.output) : 0 < v.input.sends ∧ ∃ db readyHeight batch,
      Fetched args v.before v.input db readyHeight batch ∧
      ¬ Linked v.before.currentHeight (boundaryHash db v.before) batch := by
  rw [streamRun_output h] at hmem
  rcases (streamInv_before h).output_cases args v.input with hquiet | ⟨db, readyHeight, batch, hfetched,
    ⟨hlinked, _, heq⟩ | ⟨_, sent, _, heq⟩⟩
  · obtain ⟨_, _, heq⟩ := hquiet _ hmem
    cases heq
  · refine ⟨?_, db, readyHeight, batch, hfetched, hlinked⟩
    rw [heq] at hmem
    by_contra hsends
    rw [Nat.eq_zero_of_not_pos hsends] at hmem
    cases hmem
  · rw [heq] at hmem
    obtain ⟨bundle, -, hbundle⟩ := List.mem_map.mp hmem
    have := processed_blockAction fromCursor bundle
    rw [hbundle] at this
    cases this

theorem resetSafe_iff (h0 : 0 ≤ fromHeight)
    (h : streamRun args fromHeight fromCursor iterations = pre ++ v :: post) :
    ResetSafe pre v ↔ ReorgShallow args pre v := by
  constructor
  · intro hsafe db readyHeight batch hfetched hlinked hsends blockMeta hmem hbelow
    obtain ⟨safeRestartHeight, reason, houtput, hiff⟩ := exists_resetRequiredAt h0 h hfetched hlinked
    refine hsafe db hfetched.snapshot safeRestartHeight reason ?_ blockMeta hmem ((hiff blockMeta hmem).mpr hbelow)
    rw [houtput, List.take_of_length_le hsends]
    exact List.mem_singleton_self _
  · intro hshallow db hsnapshot safeRestartHeight reason hcontrol blockMeta hmem hlt
    obtain ⟨hsends, db', readyHeight, batch, hfetched, hlinked⟩ := fetched_of_control h hcontrol
    obtain rfl := Except.ok.inj (hsnapshot.symm.trans hfetched.snapshot)
    obtain ⟨safeRestartHeight', reason', houtput, hiff⟩ := exists_resetRequiredAt h0 h hfetched hlinked
    rw [houtput] at hcontrol
    have hevent := List.mem_singleton.mp (List.mem_of_mem_take hcontrol)
    have heq := resetRequiredAt_inj (SseEvent.control.inj (StreamAction.sent.inj hevent))
    rw [heq, hiff blockMeta hmem] at hlt
    exact hshallow db readyHeight batch hfetched hlinked hsends blockMeta hmem hlt

end Safe

/-- **Resets and reorgs.** Every reset of a run is safe exactly when every iteration of the run that meets a defect
meets a shallow reorg. -/
theorem resets_safe_iff (args : AssemblyArgs) {fromHeight : Int} (h0 : 0 ≤ fromHeight)
    (fromCursor : Option SequenceKey) (iterations : List Iteration) :
    (∀ pre v post, streamRun args fromHeight fromCursor iterations = pre ++ v :: post → ResetSafe pre v) ↔
      ∀ pre v post, streamRun args fromHeight fromCursor iterations = pre ++ v :: post → ReorgShallow args pre v :=
  forall_congr' fun _ => forall_congr' fun _ => forall_congr' fun _ => forall_congr' fun h => resetSafe_iff h0 h

/-! ## Two runs -/

namespace Sample

/-- The long chain with block 3 on top of a missing block 2. -/
def gapped : Database :=
  ⟨tables [block 0 1 0, block 1 2 1, block 3 4 3] [transaction 1 0] [utxo 1 1 none], by decide⟩

/-- Another chain, with no block of the long chain. -/
def replaced : Database :=
  ⟨tables [block 0 7 0, block 1 8 7, block 2 9 8] [transaction 1 0] [utxo 1 1 none], by decide⟩

/-- The state after the two blocks of the long chain. -/
def afterLongChain : StreamState := ⟨2, none, -1, some "02"⟩

theorem streamRun_longChain (db : Database) : streamRun args 0 none [iteration longChain, iteration db] =
    [visit (streamStep args) (.initial 0 none) (iteration longChain),
      visit (streamStep args) afterLongChain (iteration db)] :=
  visits_pair (by decide)

theorem processedBy_longChain : processedBy [visit (streamStep args) (.initial 0 none) (iteration longChain)] =
    [⟨0, "01", "00", 0⟩, ⟨1, "02", "01", 0⟩] := by decide

end Sample

theorem reorgShallow_of_kept {args : AssemblyArgs} {pre : List (Visit StreamState Iteration StreamAction)}
    {v : Visit StreamState Iteration StreamAction}
    (h : ∀ db, v.input.snapshot = .ok db → ∀ blockMeta ∈ processedBy pre, Kept db blockMeta) :
    ReorgShallow args pre v :=
  fun db _ _ hfetched _ _ blockMeta hmem _ => h db hfetched.snapshot blockMeta hmem

/-- A gap above the processed blocks, answered with the restart height 1. -/
theorem resets_safe_gapped :
    (∃ v ∈ streamRun Sample.args 0 none [Sample.iteration Sample.longChain, Sample.iteration Sample.gapped],
      .sent (.control (.resetRequiredAt 1 "Block gap detected: expected height 2, got 3")) ∈ v.output) ∧
    ∀ pre v post, streamRun Sample.args 0 none [Sample.iteration Sample.longChain, Sample.iteration Sample.gapped] =
      pre ++ v :: post → ResetSafe pre v := by
  refine ⟨?_, (resets_safe_iff Sample.args le_rfl none _).mpr fun pre v post h => ?_⟩
  · rw [Sample.streamRun_longChain]
    exact ⟨_, List.mem_cons_of_mem _ (List.mem_singleton_self _), by decide⟩
  · rw [Sample.streamRun_longChain] at h
    refine reorgShallow_of_kept fun db hdb blockMeta hmem => ?_
    rcases pre with _ | ⟨v₀, _ | ⟨v₁, pre⟩⟩
    · cases hmem
    · obtain ⟨rfl, htail⟩ := List.cons.inj h
      obtain ⟨rfl, -⟩ := List.cons.inj htail
      cases hdb
      rw [Sample.processedBy_longChain] at hmem
      revert blockMeta
      decide
    · have := congrArg List.length h
      simp at this

/-- The fork is two blocks deep: the restart height is 1, but block 0 is not the one the stream has processed. -/
theorem not_resetSafe_replaced : ∃ pre v,
    streamRun Sample.args 0 none [Sample.iteration Sample.longChain, Sample.iteration Sample.replaced] = pre ++ [v] ∧
      ¬ ResetSafe pre v := by
  refine ⟨[_], _, Sample.streamRun_longChain _, fun h => ?_⟩
  have hkept := h Sample.replaced rfl 1 "Reorg detected at height 2: parent hash mismatch" (by decide)
    ⟨0, "01", "00", 0⟩ (by rw [Sample.processedBy_longChain]; exact List.mem_cons_self) (by decide)
  exact absurd hkept (by decide)

end NocyWalletFeed
