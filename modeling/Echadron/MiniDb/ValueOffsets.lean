import Echadron.MiniDb.DbSteps
import Echadron.MiniDb.RecoveryCut
import Mathlib.Data.List.Induction

namespace Echadron.MiniDb
open Lib Lib.Bytes List

theorem mem_scanLoop
    (h : r ∈ (scanLoop file onCorrupt fuel pos).frames) : ∃ i, readFrameRefAt file i = some r := by
  induction fuel generalizing pos with
  | zero => cases h
  | succ fuel ih =>
    rw [scanLoop.eq_def] at h
    dsimp only at h
    split at h
    · split at h
      · rename_i hr
        rcases mem_cons.mp h with rfl | h
        · exact ⟨pos, hr⟩
        · exact ih h
      · split at h
        · cases h
        · split at h
          · cases h
          · exact ih h
    · cases h

theorem value_le (h : readFrameRefAt file pos = some r) : r.valueOff + r.valLen ≤ file.length := by
  obtain ⟨hat, rfl⟩ := readFrameRefAt_eq_some.mp h
  have hle := hat.frame_le
  rw [frameLength] at hle
  show pos + headerSize + readUInt16LE (slice file pos headerSize) 4 +
    readUInt32LE (slice file pos headerSize) 6 ≤ file.length
  omega

theorem mem_scanBatchLoop {bodyOff count o : Nat} (h : scanBatchLoop body bodyOff count o = .ok ops) :
    ∀ op ∈ ops, ∃ i, op.valueOff = bodyOff + i ∧ i + op.valLen ≤ body.length := by
  induction count generalizing o ops with
  | zero =>
    cases h
    exact nofun
  | succ count ih =>
    rw [scanBatchLoop] at h
    split at h
    · cases h
    · dsimp only at h
      split at h
      · cases h
      · obtain ⟨rest, hrest, h⟩ := bind_ok h
        cases h
        intro op hop
        rcases mem_cons.mp hop with rfl | hop
        · refine ⟨_, rfl, ?_⟩
          dsimp only
          omega
        · exact ih hrest op hop

def Whole (file : Bytes) (off len : Nat) : Prop := (slice file off len).length = len

theorem whole_of_le (h : off + len ≤ file.length) : Whole file off len := length_slice h

theorem readAtSync_ok (h : readAtSync fd off len = .ok bytes) :
    bytes.length = len ∧ (bytes = [] ∨ off + len ≤ fd.length) := by
  rw [readAtSync] at h
  split at h
  · rename_i hz
    cases h
    exact ⟨hz.symm, .inl rfl⟩
  · split at h
    · rename_i hle
      cases h
      exact ⟨length_slice hle, .inr hle⟩
    · cases h

theorem whole_opRefs (h : readFrameRefAt fd pos = some f) : ∀ op ∈ f.opRefs fd, Whole fd op.valueOff op.valLen := by
  intro op hop
  rw [FrameRef.opRefs] at hop
  split at hop
  · cases hread : readAtSync fd f.valueOff f.valLen with
    | error e =>
      rw [hread] at hop
      cases hop
    | ok body =>
      obtain ⟨hlength, hbody⟩ := readAtSync_ok hread
      have hscan : (readAtSync fd f.valueOff f.valLen >>= (scanBatchOpRefs · f.valueOff)) =
          scanBatchOpRefs body f.valueOff := by
        rw [hread]
        rfl
      rw [hscan, scanBatchOpRefs] at hop
      split at hop
      · rename_i hscan
        split at hscan
        · cases hscan
          cases hop
        · rename_i hlong
          obtain ⟨i, hoff, hle⟩ := mem_scanBatchLoop hscan op hop
          apply whole_of_le
          rcases hbody with rfl | hbody
          · exact absurd (by decide : ([] : Bytes).length < 2) hlong
          · omega
      · cases hop
  · rw [mem_singleton.mp hop]
    exact whole_of_le (value_le h)

theorem opRefToOps_fits {s : Db}
    (h : opRefToOps opts .wal s.wal.file f = .ok ops) (hf : Whole s.wal.file f.valueOff f.valLen) :
    ∀ key ref expireAt dt, RecoveredOp.set key ref expireAt dt ∈ ops → s.Fits ref := by
  intro key ref expireAt dt hop
  rw [opRefToOps] at h
  split at h
  · obtain ⟨op, hset, rfl⟩ := map_ok h
    obtain rfl := mem_singleton.mp hop
    rw [setRefToOps] at hset
    split at hset
    · cases hset
    · obtain ⟨dt', _, hset⟩ := bind_ok hset
      obtain ⟨ref', href, hset⟩ := bind_ok hset
      cases hset
      rw [valueRef] at href
      split at href
      · cases href
        exact hf
      · obtain ⟨value, _, rfl⟩ := map_ok href
        trivial
  · split at h
    · cases h
      cases mem_singleton.mp hop
    · cases h
      cases hop

variable {codec : MetaCodec DtColumns}

def StandsAt (codec : MetaCodec DtColumns) (frame : Bytes) (v : PreparedOp DtColumns × Nat × Nat) : Prop :=
  v.2.2 = (v.1.toBatchOp codec).val.length ∧ slice frame v.2.1 v.2.2 = (v.1.toBatchOp codec).val

theorem standsAt_single
    (h : encodeFrame (op.toBatchOp codec) = .ok frame) :
    StandsAt codec frame (op, headerSize + op.key.length, (op.toBatchOp codec).val.length) := by
  obtain ⟨_, rfl⟩ := encodeFrame_ok h
  have hkey : op.key = (op.toBatchOp codec).key := by cases op <;> rfl
  have hslice := slice_val [] [] (op.toBatchOp codec)
  rw [append_nil] at hslice
  refine ⟨rfl, ?_⟩
  rw [hkey]
  exact hslice

theorem forall_mem_zip
    (h : List.Forall₂ R xs ys) : (xs.zip ys).map Prod.fst = xs ∧ ∀ p ∈ xs.zip ys, R p.1 p.2 := by
  induction h with
  | nil => exact ⟨rfl, nofun⟩
  | cons hxy _ ih =>
    rw [zip_cons_cons, map_cons, ih.1]
    exact ⟨rfl, forall_mem_cons.mpr ⟨hxy, ih.2⟩⟩

theorem standsAt_batch
    (hbody : encodeBatchOps (ops.map (PreparedOp.toBatchOp codec)) = .ok body)
    (h : encodeFrame { type := typeBatch, key := [], value := some body } = .ok frame) :
    ∃ fs, scanBatchOpRefs body 0 = .ok fs ∧
      List.Forall₂ (fun op (f : BatchOpRef) => StandsAt codec frame (op, headerSize + f.valueOff, f.valLen))
        ops fs := by
  obtain ⟨hcount, hops, hbytes⟩ := encodeBatchOps_ok hbody
  have hread : readUInt16LE body 0 = (ops.map (PreparedOp.toBatchOp codec)).length := by
    rw [hbytes]
    exact toNatLE_ofNatLE_of_lt hcount
  have hlength : ¬ body.length < 2 := by
    rw [hbytes, length_append, length_ofNatLE]
    omega
  obtain ⟨_, rfl⟩ := encodeFrame_ok h
  let outer : BatchOp := { type := typeBatch, key := [], value := some body }
  have hframe : slice (frameOf outer) headerSize body.length = body := by
    have hslice := slice_val [] [] outer
    rw [append_nil] at hslice
    exact hslice
  -- scanned in the frame, the values stand behind its header
  obtain ⟨fs, hfs, hall⟩ := scanBatchLoop_bodies body 0 _ body _ hops hbytes (slice_all body)
  rw [length_ofNatLE, ← hread] at hfs
  refine ⟨fs, ?_, ?_⟩
  · rw [scanBatchOpRefs, if_neg hlength, hfs]
  · apply (forall₂_map_left_iff.mp hall).imp
    intro op f hf
    have hwithin : f.valueOff + f.valLen ≤ body.length ∨ f.valLen = 0 := by
      have hlen := congrArg length hf.value_eq
      rw [slice, length_take, length_drop, ← hf.valLen_eq] at hlen
      omega
    refine ⟨hf.valLen_eq, ?_⟩
    show slice (frameOf outer) (headerSize + f.valueOff) f.valLen = _
    rcases hwithin with hle | hz
    · rw [← slice_slice hle, hframe, hf.value_eq]
    · rw [← hf.value_eq, hz, slice_zero, slice_zero]

theorem valueOffsets_spec {write : WalWrite DtColumns} (h : write.encode codec = .ok frame) :
    (write.valueOffsets codec).map Prod.fst = write.ops ∧
      ∀ v ∈ write.valueOffsets codec, StandsAt codec frame v := by
  cases write with
  | single op =>
    refine ⟨rfl, fun v hv => ?_⟩
    rw [mem_singleton.mp hv]
    exact standsAt_single h
  | batch ops =>
    obtain ⟨body, hbody, h⟩ := bind_ok h
    obtain ⟨fs, hfs, hall⟩ := standsAt_batch hbody h
    have hplaces : List.Forall₂ (fun op p => StandsAt codec frame (op, p)) ops
        (fs.map fun ref => (headerSize + ref.valueOff, ref.valLen)) :=
      forall₂_map_right_iff.mpr hall
    have hzip := forall_mem_zip hplaces
    have heq : WalWrite.valueOffsets codec (.batch ops) =
        ops.zip (fs.map fun ref => (headerSize + ref.valueOff, ref.valLen)) := by
      have hscan : (encodeBatchOps (ops.map (PreparedOp.toBatchOp codec)) >>= (scanBatchOpRefs · 0)) =
          .ok fs := by
        rw [hbody]
        exact hfs
      rw [WalWrite.valueOffsets, hscan]
    rw [heq]
    exact hzip

namespace Db

variable (env : DbEnv)

theorem lastSet_spec (s : Db) (vs : List (PreparedOp DtColumns × Nat × Nat)) (pk : Bytes)
    (e : JsInteger × Option DtColumns × Nat × Nat)
    (he : (vs.foldl
      (fun (lastSet : JsMap Bytes (JsInteger × Option DtColumns × Nat × Nat)) v =>
        match v.1 with
        | .set key _ expireAt dt => lastSet.set key (expireAt, dt, v.2)
        | .del _ => lastSet) .empty).get pk = some e)
    (r : DbRecord) (hr : (s.applyOps env (vs.map Prod.fst)).2.store.map.get pk = some r) :
    r.seq ≤ (s.applyOps env (vs.map Prod.fst)).2.store.seq ∧
      ∃ value, r.ref = .memory value ∧ r.expireAt = e.1 ∧ r.dt = e.2.1 ∧
        (PreparedOp.set pk value e.1 e.2.1, e.2.2) ∈ vs := by
  induction vs using reverseRecOn generalizing r with
  | nil => cases he
  | append_singleton vs v ih =>
    rw [foldl_append, foldl_cons, foldl_nil] at he
    rw [map_append, map_singleton, applyOps_concat] at hr ⊢
    obtain ⟨op, place⟩ := v
    have hle := (extends_applyOp env (s.applyOps env (vs.map Prod.fst)).2 op).seq_le
    cases op with
    | set key value expireAt dt =>
      rw [JsMap.get_set] at he
      rw [applyOp_set_get] at hr
      by_cases hk : pk = key
      · rw [if_pos hk] at he
        rw [if_pos hk] at hr
        cases he
        cases hr
        subst hk
        refine ⟨?_, value, rfl, rfl, rfl, mem_append_right _ (mem_singleton.mpr rfl)⟩
        show _ ≤ ((s.applyOps env (vs.map Prod.fst)).2.reap env pk).store.seq + 1
        rw [reap_seq]
      · rw [if_neg hk] at he
        rw [if_neg hk] at hr
        obtain ⟨hseq, value', href, hexp, hdt, hmem⟩ := ih he r hr
        exact ⟨le_trans hseq hle, value', href, hexp, hdt, mem_append_left _ hmem⟩
    | del key =>
      rw [applyOp_del_get] at hr
      by_cases hk : pk = key
      · rw [if_pos hk] at hr
        cases hr
      · rw [if_neg hk] at hr
        obtain ⟨hseq, value', href, hexp, hdt, hmem⟩ := ih he r hr
        exact ⟨le_trans hseq hle, value', href, hexp, hdt, mem_append_left _ hmem⟩

end Db

end Echadron.MiniDb
