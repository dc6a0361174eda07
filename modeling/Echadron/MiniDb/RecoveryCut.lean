import Echadron.MiniDb.Replay

namespace Echadron.MiniDb
open Lib Lib.Bytes List

variable {Dt : Type} (opts : RecoveryOptions Dt) (file : StoreFile)

def ReadsBack (fd : Bytes) (w : WalWrite Dt) (r : FrameRef) : Prop :=
  ∃ ops, frameToOps opts file fd r = .ok ops ∧
    ops.map (RecoveredOp.read fd) = w.ops.map (PreparedOp.replayed opts.now)

theorem located_writtenRef (pre post : Bytes) (op : BatchOp) :
    Located (pre ++ frameOf op ++ post) op (writtenRef pre.length op).opRef :=
  ⟨rfl, rfl, rfl, rfl, rfl, slice_val pre post op⟩

theorem PreparedOp.type_ne_batch (codec : MetaCodec Dt) (op : PreparedOp Dt) :
    (op.toBatchOp codec).type ≠ typeBatch := by
  cases op with
  | set key value expireAt dt =>
    show typeSet ≠ typeBatch
    decide
  | del key =>
    show typeDel ≠ typeBatch
    decide

theorem readsBack_single (op : PreparedOp Dt)
    (h : Located fd (op.toBatchOp opts.codec) f.opRef) : ReadsBack opts file fd (.single op) f := by
  have htype : f.type ≠ typeBatch := by
    have he : f.type = _ := h.type_eq
    rw [he]
    exact op.type_ne_batch opts.codec
  obtain ⟨r, hr, hread⟩ := opRefToOps_located opts file op h
  refine ⟨[r], ?_, ?_⟩
  · rw [frameToOps, if_neg htype, hr]
  · rw [map_singleton, hread]
    rfl

theorem readsBack_batch (ops : List (PreparedOp Dt))
    (h : Located fd { type := typeBatch, key := [], value := some body } f.opRef)
    (hbody : encodeBatchOps (ops.map (PreparedOp.toBatchOp opts.codec)) = .ok body) :
    ReadsBack opts file fd (.batch ops) f := by
  have htype : f.type = typeBatch := h.type_eq
  have hvalue : readAtSync fd f.valueOff f.valLen = .ok body := h.readAtSync
  have hslice : slice fd f.valueOff body.length = body := by
    have hlen : f.valLen = body.length := h.valLen_eq
    rw [← hlen]
    exact h.value_eq
  obtain ⟨hcount, hops, hbytes⟩ := encodeBatchOps_ok hbody
  have hread : readUInt16LE body 0 = (ops.map (PreparedOp.toBatchOp opts.codec)).length := by
    rw [hbytes]
    exact toNatLE_ofNatLE_of_lt hcount
  have hlength : ¬ body.length < 2 := by
    rw [hbytes, length_append, length_ofNatLE]
    omega
  obtain ⟨fs, hfs, hall⟩ := scanBatchLoop_bodies fd f.valueOff _ body _ hops hbytes hslice
  rw [length_ofNatLE, ← hread] at hfs
  obtain ⟨rs, hrs, hreads⟩ := opRefsToOps_located opts file (forall₂_map_left_iff.mp hall)
  refine ⟨rs.flatten, ?_, hreads⟩
  have hscan : (readAtSync fd f.valueOff f.valLen >>= (scanBatchOpRefs · f.valueOff)) = .ok fs := by
    rw [hvalue]
    show scanBatchOpRefs body f.valueOff = _
    rw [scanBatchOpRefs, if_neg hlength, hfs]
  rw [frameToOps, if_pos htype, hscan]
  show (fs.mapM (opRefToOps opts file fd)).map List.flatten = _
  rw [hrs]
  rfl

theorem WalWrite.encode_ok (h : w.encode opts.codec = .ok frame) : ∃ op, Encodable op ∧ frame = frameOf op ∧
      ∀ pre post, ReadsBack opts file (pre ++ frame ++ post) w (writtenRef pre.length op) := by
  cases w with
  | single op =>
    obtain ⟨hop, rfl⟩ := encodeFrame_ok h
    exact ⟨_, hop, rfl, fun pre post => readsBack_single opts file op (located_writtenRef pre post _)⟩
  | batch ops =>
    obtain ⟨body, hbody, h⟩ := bind_ok h
    obtain ⟨hop, rfl⟩ := encodeFrame_ok h
    exact ⟨_, hop, rfl, fun pre post => readsBack_batch opts file ops (located_writtenRef pre post _) hbody⟩

variable {opts file}

abbrev Encoded (opts : RecoveryOptions Dt) (ws : List (WalWrite Dt)) (chunks : List Bytes) : Prop :=
  List.Forall₂ (fun w frame => w.encode opts.codec = .ok frame) ws chunks

theorem length_frame_pos {w : WalWrite Dt} (h : w.encode opts.codec = .ok frame) : 0 < frame.length := by
  obtain ⟨op, _, rfl, _⟩ := w.encode_ok opts .wal h
  rw [length_frameOf, headerSize]
  omega

theorem Encoded.exists_of_mem (h : Encoded opts ws chunks) (hmem : frame ∈ chunks) :
    ∃ w : WalWrite Dt, w.encode opts.codec = .ok frame := by
  induction h with
  | nil => cases hmem
  | cons hw _ ih =>
    rcases mem_cons.mp hmem with rfl | hmem
    · exact ⟨_, hw⟩
    · exact ih hmem

/-- Bytes from `pos` on: the frames of writes, and pieces between them whose positions are blank. -/
inductive Laid (codec : MetaCodec Dt) (blank : Nat → Prop) : Nat → List (WalWrite Dt) → Bytes → Prop where
  | nil {pos : Nat} : Laid codec blank pos [] []
  | frame {pos : Nat} {w : WalWrite Dt} {chunk : Bytes} {ws : List (WalWrite Dt)} {rest : Bytes}
    (hw : w.encode codec = .ok chunk) (hrest : Laid codec blank (pos + chunk.length) ws rest) :
    Laid codec blank pos (w :: ws) (chunk ++ rest)
  | piece {pos : Nat} {torn : Bytes} {ws : List (WalWrite Dt)} {rest : Bytes}
    (hblank : ∀ q, pos ≤ q → q < pos + torn.length → blank q)
    (hrest : Laid codec blank (pos + torn.length) ws rest) : Laid codec blank pos ws (torn ++ rest)

namespace Laid

variable {codec : MetaCodec Dt} {blank blank' : Nat → Prop}

theorem append (h : Laid codec blank pos ws bytes) (h' : Laid codec blank (pos + bytes.length) ws' bytes') :
    Laid codec blank pos (ws ++ ws') (bytes ++ bytes') := by
  induction h with
  | nil => exact h'
  | frame hw _ ih =>
    rw [append_assoc]
    apply frame hw
    apply ih
    rw [length_append, ← add_assoc] at h'
    exact h'
  | piece hblank _ ih =>
    rw [append_assoc]
    apply piece hblank
    apply ih
    rw [length_append, ← add_assoc] at h'
    exact h'

theorem mono (h : Laid codec blank pos ws bytes) (himp : ∀ q, blank q → blank' q) :
    Laid codec blank' pos ws bytes := by
  induction h with
  | nil => exact .nil
  | frame hw _ ih => exact .frame hw ih
  | piece hblank _ ih => exact .piece (fun q hq hq' => himp q (hblank q hq hq')) ih

theorem of_encoded (h : List.Forall₂ (fun w frame => w.encode codec = .ok frame) ws chunks) (pos : Nat) :
    Laid codec blank pos ws chunks.flatten := by
  induction h generalizing pos with
  | nil => exact .nil
  | cons hw _ ih => exact .frame hw (ih _)

end Laid

theorem scanLoop_laid (file : StoreFile) {blank : Nat → Prop}
    (h : Laid opts.codec blank pos ws bytes) (hblank : ∀ q, blank q → ¬ FrameAt fd q)
    (hmode : opts.mode = .strict → ∀ q, ¬ blank q) (pre rest : Bytes) (hpos : pre.length = pos)
    (hfd : fd = pre ++ bytes ++ rest) (fuel : Nat) (hfuel : (bytes ++ rest).length ≤ fuel) :
    ∃ refs fuel', rest.length ≤ fuel' ∧ (scanLoop fd opts.mode fuel pos).frames =
        refs ++ (scanLoop fd opts.mode fuel' (pos + bytes.length)).frames ∧
      List.Forall₂ (ReadsBack opts file fd) ws refs := by
  induction h generalizing pre fuel with
  | nil => exact ⟨[], fuel, hfuel, rfl, .nil⟩
  | @frame pos w chunk ws bytes hw _ ih =>
    have hfpos := length_frame_pos hw
    obtain ⟨op, hop, rfl, hreads⟩ := w.encode_ok opts file hw
    rw [append_assoc, length_append] at hfuel
    obtain ⟨fuel, rfl⟩ : ∃ n, fuel = n + 1 := ⟨fuel - 1, by omega⟩
    rw [← append_assoc] at hfd
    obtain ⟨refs, fuel', hfuel', hframes, hall⟩ :=
      ih (pre ++ frameOf op) (by rw [length_append, hpos]) hfd fuel (by omega)
    have hread := readFrameRefAt_frameOf hop pre (bytes ++ rest)
    have hreads := hreads pre (bytes ++ rest)
    rw [← append_assoc, ← hfd, hpos] at hread hreads
    refine ⟨writtenRef pos op :: refs, fuel', hfuel', ?_, .cons hreads hall⟩
    rw [scanLoop_found hread, length_append, ← add_assoc]
    show _ :: (scanLoop _ _ _ (pos + (frameOf op).length)).frames = _
    rw [hframes, cons_append]
  | @piece pos piece ws bytes hpiece _ ih =>
    rw [append_assoc, length_append] at hfuel
    rw [← append_assoc] at hfd
    obtain ⟨refs, fuel', hfuel', hframes, hall⟩ :=
      ih (pre ++ piece) (by rw [length_append, hpos]) hfd fuel (by omega)
    refine ⟨refs, fuel', hfuel', ?_, hall⟩
    rw [length_append, ← add_assoc, ← hframes]
    cases hm : opts.mode with
    | strict =>
      have hempty : piece.length = 0 := by
        by_contra hne
        exact hmode hm pos (hpiece pos (le_refl _) (by omega))
      rw [hempty, add_zero]
    | resync =>
      have hlength := congrArg length hfd
      simp only [length_append] at hlength hfuel
      apply scanLoop_skip
      · exact Nat.le_add_right _ _
      · exact fun q hq hq' => hblank q (hpiece q hq hq')
      · omega
      · omega

/-- How many frames lie wholly before a cut. -/
def wholeCount : List Bytes → Nat → Nat
  | [], _ => 0
  | chunk :: chunks, cut => if chunk.length ≤ cut then wholeCount chunks (cut - chunk.length) + 1 else 0

theorem take_flatten (chunks : List Bytes) (cut : Nat) :
    ∃ torn, chunks.flatten.take cut = (chunks.take (wholeCount chunks cut)).flatten ++ torn ∧
      (torn = [] ∨ ∃ chunk ∈ chunks, torn <+: chunk ∧ torn.length < chunk.length) := by
  induction chunks generalizing cut with
  | nil => exact ⟨[], by simp [wholeCount], .inl rfl⟩
  | cons chunk chunks ih =>
    rw [wholeCount]
    split
    · rename_i hle
      obtain ⟨torn, htake, htorn⟩ := ih (cut - chunk.length)
      refine ⟨torn, ?_, ?_⟩
      · rw [flatten_cons, take_append, take_of_length_le hle, htake, take_succ_cons, flatten_cons, append_assoc]
      · rcases htorn with rfl | ⟨next, hmem, hprefix⟩
        · exact .inl rfl
        · exact .inr ⟨next, mem_cons_of_mem _ hmem, hprefix⟩
    · rename_i hgt
      have hlt : cut < chunk.length := Nat.lt_of_not_le hgt
      refine ⟨chunk.take cut, ?_, .inr ⟨chunk, mem_cons_self, take_prefix _ _, ?_⟩⟩
      · rw [flatten_cons, take_append_of_le_length (le_of_lt hlt)]
        rfl
      · rw [length_take]
        omega

/-- Recovery of a log that was cut yields, frame by frame, what is left of the writes whose frames
lie wholly before the cut. -/
def RecoversWhole (opts : RecoveryOptions Dt) (file : StoreFile) (ws : List (WalWrite Dt))
    (chunks : List Bytes) (cut : Nat) : Prop :=
  (readOps opts file (chunks.flatten.take cut)).map
      (List.map (List.map (RecoveredOp.read (chunks.flatten.take cut)))) =
    .ok ((ws.take (wholeCount chunks cut)).map fun w => w.ops.map (PreparedOp.replayed opts.now))

instance [DecidableEq Dt] (ws : List (WalWrite Dt)) (chunks : List Bytes) (cut : Nat) :
    Decidable (RecoversWhole opts file ws chunks cut) :=
  inferInstanceAs (Decidable (_ = _))

theorem mapM_readsBack
    (h : List.Forall₂ (ReadsBack opts file fd) ws refs) :
    ∃ groups, refs.mapM (frameToOps opts file fd) = .ok groups ∧ groups.map (map (RecoveredOp.read fd)) =
        ws.map fun w => w.ops.map (PreparedOp.replayed opts.now) := by
  induction h with
  | nil => exact ⟨[], rfl, rfl⟩
  | cons hw _ ih =>
    obtain ⟨ops, hops, hread⟩ := hw
    obtain ⟨groups, hgroups, hreads⟩ := ih
    refine ⟨ops :: groups, ?_, ?_⟩
    · rw [mapM_cons, hops, hgroups]
      rfl
    · rw [map_cons, map_cons, hread, hreads]

theorem mapM_append_readsBack
    (h : List.Forall₂ (ReadsBack opts file fd) ws refs) :
    ((refs ++ rest).mapM (frameToOps opts file fd)).map (map (map (RecoveredOp.read fd))) =
      .ok (ws.map fun w => w.ops.map (PreparedOp.replayed opts.now)) ↔ rest = [] := by
  obtain ⟨groups, hgroups, hreads⟩ := mapM_readsBack h
  rw [mapM_append, hgroups]
  constructor
  · intro he
    obtain ⟨all, hall, hmap⟩ := map_ok he
    obtain ⟨_, ⟨⟩, hall⟩ := bind_ok hall
    obtain ⟨extra, hextra, hall⟩ := bind_ok hall
    cases hall
    rw [map_append, hreads, append_right_eq_self, map_eq_nil_iff] at hmap
    subst hmap
    exact forall₂_nil_right_iff.mp (forall₂_of_mapM hextra)
  · rintro rfl
    show Except.ok ((groups ++ []).map _) = _
    rw [append_nil, hreads]

def tornStart (chunks : List Bytes) (cut : Nat) : Nat := ((chunks.take (wholeCount chunks cut)).flatten).length

def TornClean (opts : RecoveryOptions Dt) (chunks : List Bytes) (cut : Nat) : Prop :=
  opts.mode = .strict ∨ ∀ p, tornStart chunks cut < p → ¬ FrameAt (chunks.flatten.take cut) p

theorem not_frameAt_tail (hall : Encoded opts ws chunks) (pre : Bytes)
    (htorn : torn = [] ∨ ∃ chunk ∈ chunks, torn <+: chunk ∧ torn.length < chunk.length) :
    ¬ FrameAt (pre ++ torn) pre.length := by
  rcases htorn with rfl | ⟨chunk, hmem, hpiece, hshort⟩
  · intro hat
    have hlt := hat.lt
    rw [append_nil] at hlt
    exact absurd hlt (lt_irrefl _)
  · obtain ⟨w, hw⟩ := Encoded.exists_of_mem hall hmem
    obtain ⟨op, hop, rfl, _⟩ := w.encode_ok opts .wal hw
    exact not_frameAt_torn hop pre hpiece hshort

theorem readOps_laid (file : StoreFile)
    (h : Laid opts.codec blank 0 ws bytes) (hblank : ∀ q, blank q → ¬ FrameAt (bytes ++ torn) q)
    (hmode : opts.mode = .strict → ∀ q, ¬ blank q) (htail : ¬ FrameAt (bytes ++ torn) bytes.length) :
    (readOps opts file (bytes ++ torn)).map (map (map (RecoveredOp.read (bytes ++ torn)))) =
        .ok (ws.map fun w => w.ops.map (PreparedOp.replayed opts.now)) ↔
      opts.mode = .strict ∨ ∀ p, bytes.length < p → ¬ FrameAt (bytes ++ torn) p := by
  obtain ⟨refs, fuel, hfuel, hframes, hreads⟩ :=
    scanLoop_laid file h hblank hmode [] torn rfl rfl (bytes ++ torn).length (le_refl _)
  rw [zero_add] at hframes
  rw [readOps, scanFrameRefsFd, Nat.sub_zero, hframes, mapM_append_readsBack hreads]
  constructor
  · intro hnil
    cases hm : opts.mode with
    | strict => exact .inl rfl
    | resync =>
      apply Or.inr
      intro p hp hat
      rw [hm] at hnil
      apply scanLoop_resync hp hat _ hnil
      rw [length_append]
      omega
  · exact fun hrest => scanLoop_stop htail hrest fuel

theorem readOps_cut (hall : Encoded opts ws chunks) (file : StoreFile) (cut : Nat) :
    RecoversWhole opts file ws chunks cut ↔ TornClean opts chunks cut := by
  obtain ⟨torn, htake, htorn⟩ := take_flatten chunks cut
  rw [RecoversWhole, TornClean, htake]
  apply readOps_laid file (Laid.of_encoded (forall₂_take _ hall) 0)
  · exact fun _ => False.elim
  · exact fun _ _ => id
  · exact not_frameAt_tail hall _ htorn

/-- A cut log recovers as the writes before the cut if and only if recovery is strict or no valid
frame starts within the torn piece. -/
theorem recoversWhole_iff (opts : RecoveryOptions Dt) (file : StoreFile) (ws : List (WalWrite Dt))
    (chunks : List Bytes) (hencode : ws.mapM (WalWrite.encode opts.codec) = .ok chunks) (cut : Nat) :
    RecoversWhole opts file ws chunks cut ↔ TornClean opts chunks cut :=
  readOps_cut (forall₂_of_mapM hencode) file cut

def emptyColumns : MetaCodec Unit where
  stringify _ := [0x7b, 0x22, 0x64, 0x74, 0x22, 0x3a, 0x7b, 0x7d, 0x7d]
  parse _ := .ok (some ())
  parse_stringify _ := rfl
  stringify_ne_nil _ := cons_ne_nil _ _

def embeddedDel : BatchOp := { type := typeDel, key := [0x61] }

/-- A record whose value is itself the frame of a deletion. -/
def embeddingOp : PreparedOp Unit := .set [0x6b] (frameOf embeddedDel) 0 none

def resyncOptions : RecoveryOptions Unit := { codec := emptyColumns, now := 1 }

/-- The cut takes away the checksum of the record, but not the frame within its value. -/
theorem embeddingOp_diverges : [WalWrite.single embeddingOp].mapM (WalWrite.encode emptyColumns) =
        .ok [frameOf (embeddingOp.toBatchOp emptyColumns)] ∧
      ¬ RecoversWhole resyncOptions .wal [.single embeddingOp]
        [frameOf (embeddingOp.toBatchOp emptyColumns)] 52 := by
  decide +kernel

def plainOp : PreparedOp Unit := .set [0x6b] [0x76] 0 (some ())

theorem recoversWhole_iff_plain : RecoversWhole resyncOptions .wal [.single plainOp, .single (.del [0x6b])]
        [frameOf (plainOp.toBatchOp emptyColumns), frameOf { type := typeDel, key := [0x6b] }] 40 ↔
      TornClean resyncOptions
        [frameOf (plainOp.toBatchOp emptyColumns), frameOf { type := typeDel, key := [0x6b] }] 40 :=
  recoversWhole_iff resyncOptions .wal _ _ (by decide +kernel) 40

end Echadron.MiniDb
