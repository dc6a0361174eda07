import Echadron.Lib.Tracking
import Echadron.MiniDb.RecoveryCut

namespace Echadron.MiniDb
open Lib Lib.Bytes List

variable {Dt : Type}

namespace Store

/-- What `entries` yields, as the operations that write it. -/
def entries (s : Store Dt) (materialize : ValueRef → Bytes) (now : JsInteger) : List (PreparedOp Dt) :=
  (s.map.entries.filter fun e => !isExpiredAt e.2.expireAt now).map fun (key, r) =>
    .set key (materialize r.ref) r.expireAt r.dt

/-- What a reader gets. -/
def view (s : Store Dt) (read : ValueRef → Bytes) (now : JsInteger) (key : Bytes) :
    Option (Bytes × JsInteger × Option Dt) :=
  (s.live now key).map fun r => (read r.ref, r.expireAt, r.dt)

end Store

/-- The frames that `writeSnapshot` puts into its file. -/
def writeSnapshot (s : Store Dt) (codec : MetaCodec Dt) (materialize : ValueRef → Bytes) (now : JsInteger) :
    Except String (List Bytes) :=
  (s.entries materialize now).mapM fun op => (WalWrite.single op).encode codec

def PreparedOp.content (now : JsInteger) : PreparedOp Dt → Option (Bytes × JsInteger × Option Dt)
  | set _ value expireAt dt => if isExpiredAt expireAt now then none else some (value, expireAt, dt)
  | del _ => none

theorem PreparedOp.replayed_eq (now : JsInteger) (op : PreparedOp Dt) :
    (op.replayed now).key = op.key ∧ (op.replayed now).content now = op.content now := by
  cases op <;> grind [replayed, key, content]

theorem view_foldl (fd : Bytes) (now : JsInteger) (ops : List (RecoveredOp Dt)) (s : Store Dt) :
    (ops.foldl applyRecoveredOp s).view (ValueRef.read fd) now = (ops.map (RecoveredOp.read fd)).foldl
      (fun v op => Function.update v op.key (op.content now)) (s.view (ValueRef.read fd) now) := by
  induction ops generalizing s with
  | nil => rfl
  | cons op ops ih =>
    rw [foldl_cons, ih, map_cons, foldl_cons]
    congr 1
    funext key
    cases op <;> simp only [Store.view, Store.live, applyRecoveredOp, Store.setRef, Store.del, JsMap.get_set, JsMap.get_delete, RecoveredOp.read, Function.update_apply, PreparedOp.key, PreparedOp.content] <;> grind

/-- A snapshot is read back as the live records that it was written from. -/
theorem recoverSnapshot_written (opts : RecoveryOptions Dt) (s : Store Dt) (materialize : ValueRef → Bytes)
    (written : JsInteger) (hclock : written ≤ opts.now) (chunks : List Bytes)
    (hwrite : writeSnapshot s opts.codec materialize written = .ok chunks) :
    ∃ r, recoverSnapshot opts { snapshot := some chunks.flatten } {} = .ok r ∧ ∀ key,
      r.store.view (ValueRef.read chunks.flatten) opts.now key = s.view materialize opts.now key := by
  have hall : Encoded opts ((s.entries materialize written).map .single) chunks :=
    forall₂_map_left_iff.mpr (forall₂_of_mapM hwrite)
  have hend (p : Nat) (hp : chunks.flatten.length ≤ p) : ¬ FrameAt (chunks.flatten ++ []) p := by
    intro hat
    exact absurd hp (by simpa using hat.lt)
  have hread := (readOps_laid .snapshot (Laid.of_encoded hall 0) (fun _ => False.elim) (fun _ _ => id)
    (hend _ (le_refl _))).mpr (.inr fun p hp => hend p (le_of_lt hp))
  rw [append_nil] at hread
  obtain ⟨groups, hgroups, hmap⟩ := map_ok hread
  have hops : groups.flatten.map (RecoveredOp.read chunks.flatten) =
      (s.entries materialize written).map (PreparedOp.replayed opts.now) := by
    rw [map_flatten, hmap, map_map, ← flatMap_def]
    exact flatMap_pure_eq_map ..
  have happly : applyFrames opts .snapshot chunks.flatten {} = .ok (groups.flatten.foldl applyRecoveredOp {}) :=
    congrArg _ hgroups
  refine ⟨_, by simp only [recoverSnapshot, happly]; rfl, fun key => ?_⟩
  show (groups.flatten.foldl applyRecoveredOp {}).view _ _ _ = _
  rw [view_foldl, hops, Store.entries, foldl_map, foldl_map]
  simp only [PreparedOp.replayed_eq]
  let content (r : StoreRecord Dt) := (PreparedOp.set key (materialize r.ref) r.expireAt r.dt).content opts.now
  let es := s.map.entries.filter fun e => !isExpiredAt e.2.expireAt written
  have hnodup : (es.map Prod.fst).Nodup := s.map.keys_nodup.sublist (filter_sublist.map _)
  obtain ⟨f, hf, htracks⟩ : ∃ f : Bytes → Option (StoreRecord Dt), (∀ r, f key = some r ↔ (key, r) ∈ es) ∧
      es.foldl (fun v e => Function.update v e.1 (content e.2)) (fun _ => none) = fun k => (f k).bind content := by
    refine ⟨_, JsMap.lookup_eq_some_iff_mem hnodup key, @tracks_rebuild _ _ _ _ (fun v f => v = fun k => (f k).bind content)
      (fun v k r => Function.update v k (content r)) ?_ _ rfl _ hnodup⟩
    rintro _ f k r rfl _
    funext k'
    by_cases hk : k' = k <;> simp [hk]
  have hlive : f key = s.live written key := by
    apply Option.ext
    intro r
    rw [hf, mem_filter, JsMap.mem_entries_iff, Store.live, Option.filter_eq_some_iff]
  refine (congrFun htracks key).trans ?_
  have hmono {r : StoreRecord Dt} (h : isExpiredAt r.expireAt written = true) := isExpiredAt_mono h hclock
  rw [hlive, Store.view, Store.live, Store.live]
  cases s.map.get key <;> grind [PreparedOp.content]

theorem recoverSnapshot_written_plain :
    let chunks := [frameOf (plainOp.toBatchOp emptyColumns)]
    ∃ r, recoverSnapshot resyncOptions { snapshot := some chunks.flatten } {} = .ok r ∧
      r.store.view (ValueRef.read chunks.flatten) 1 [0x6b] = some ([0x76], 0, some ()) := by
  obtain ⟨r, hr, hview⟩ := recoverSnapshot_written resyncOptions
    { map := JsMap.empty.set [0x6b] { ref := .memory [0x76], expireAt := 0, seq := 1, dt := some () } }
    (ValueRef.read []) 0 (by decide) [frameOf (plainOp.toBatchOp emptyColumns)] (by decide +kernel)
  exact ⟨r, hr, hview [0x6b]⟩

end Echadron.MiniDb
