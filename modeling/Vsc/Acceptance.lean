import Vsc.RspBatch

/-! # Which messages are accepted

`vsc_get_msg` and `vsc_response_msg` look at one byte of the type word, and the batch functions
compare their counts as an `int`. So the type of an accepted message may have anything in its upper
three bytes, and a count from `2 ^ 31` on passes every check.

* **`MsgCall.treatsAs`** — what a message is taken for, by its first byte;
* **`MsgCall.run`** — the two entry points, with what they return and leave;
* **`onlyWellFormed_iff`** — for which messages nothing but a well-formed batch is accepted. -/

namespace Vsc

/-! ## Messages -/

/-- What a message is taken for. -/
inductive MsgKind
  /-- A read of commands or of an event. -/
  | scsiCmd
  /-- An answer to an event. -/
  | event
  /-- A batch of data records, on the write path with responses. -/
  | scsiData
  deriving DecidableEq, Repr

/-- The `VSC_MSG_TYPE` constant. -/
def MsgKind.type : MsgKind → BitVec 32
  | .scsiCmd => VSC_MSG_TYPE_SCSI_CMD
  | .event => VSC_MSG_TYPE_EVENT
  | .scsiData => VSC_MSG_TYPE_SCSI_DATA

/-- The entry points that look at the type of a message. -/
inductive MsgCall
  /-- `vsc_get_msg`. -/
  | getMsg
  /-- `vsc_response_msg`. -/
  | responseMsg
  deriving DecidableEq, Repr

/-- The comparisons of the type. -/
def MsgCall.dispatch : MsgCall → BitVec 32 → Option MsgKind
  | .getMsg, type =>
      if type = VSC_MSG_TYPE_SCSI_CMD then some .scsiCmd
      else if type = VSC_MSG_TYPE_SCSI_DATA then some .scsiData
      else none
  | .responseMsg, type =>
      if type = VSC_MSG_TYPE_EVENT then some .event
      else if type = VSC_MSG_TYPE_SCSI_DATA then some .scsiData
      else none

/-- What the message is taken for. -/
def MsgCall.treatsAs (call : MsgCall) (x : FileEnv) (user : ℕ → BitVec 8) : Option MsgKind :=
  if ¬ x.getUser then none else call.dispatch (msgType user)

/-- What decides a message besides its bytes and the host. -/
structure MsgEnv where
  /-- The outcome of the calls that may fail. -/
  file : FileEnv
  /-- The host after `vsc_get_scsi_cmd_msg`. -/
  afterCmdRead : RspHost → RspHost
  /-- The host after `vsc_response_event`. -/
  afterEvent : RspHost → RspHost

namespace RspHost

variable (H : RspHost) (x : MsgEnv) (user : ℕ → BitVec 8) (len : BitVec 32)

/-- `vsc_get_msg`, with what it leaves. A data batch that is read changes nothing of the host. -/
def vscGetMsg : Option RspRes :=
  if ¬ x.file.getUser then some ⟨-EFAULT, H, []⟩
  else
    match MsgCall.getMsg.dispatch (msgType user) with
    | some .scsiCmd => some ⟨x.file.getScsiCmdMsg, x.afterCmdRead H, []⟩
    | some .scsiData => some ⟨(vscMultiScsiCmdData x.file .read user len).ret, H, []⟩
    | _ => some ⟨-EINVAL, H, []⟩

/-- `vsc_response_msg`, with what it leaves. -/
def vscResponseMsg : Option RspRes :=
  if ¬ x.file.getUser then some ⟨-EFAULT, H, []⟩
  else
    match MsgCall.responseMsg.dispatch (msgType user) with
    | some .event => some ⟨(vscResponseEvent x.file H.h user len).ret, x.afterEvent H, []⟩
    | some .scsiData => H.vscResponseMultiDataAndRsp x.file .write user len
    | _ => some ⟨-EINVAL, H, []⟩

end RspHost

/-- The entry point called on host `H`. -/
def MsgCall.run (H : RspHost) (x : MsgEnv) (user : ℕ → BitVec 8) (len : BitVec 32) :
    MsgCall → Option RspRes
  | .getMsg => H.vscGetMsg x user len
  | .responseMsg => H.vscResponseMsg x user len

section Entry

variable {H : RspHost} {x : MsgEnv} {user : ℕ → BitVec 8} {len : BitVec 32} {R : RspRes}

/-- The return value of `vsc_get_msg` is the one of the file operation. -/
theorem vscGetMsg_ret (h : H.vscGetMsg x user len = some R) :
    R.ret = (vscGetMsg x.file user len).ret := by
  rw [RspHost.vscGetMsg, MsgCall.dispatch] at h
  rw [vscGetMsg]
  by_cases hget : ¬ x.file.getUser
  · rw [if_pos hget] at h ⊢
    cases h
    rfl
  · rw [if_neg hget] at h ⊢
    by_cases hcmd : msgType user = VSC_MSG_TYPE_SCSI_CMD
    · rw [if_pos hcmd] at h ⊢
      cases h
      rfl
    · rw [if_neg hcmd] at h ⊢
      by_cases hdata : msgType user = VSC_MSG_TYPE_SCSI_DATA
      · rw [if_pos hdata] at h ⊢
        cases h
        rfl
      · rw [if_neg hdata] at h ⊢
        cases h
        rfl

/-- The return value of `vsc_response_msg` is the one of the file operation. -/
theorem vscResponseMsg_ret (h : H.vscResponseMsg x user len = some R) :
    R.ret = (vscResponseMsg (H.fileEnv x.file) H.h user len).ret := by
  have hget' : (H.fileEnv x.file).getUser = x.file.getUser := rfl
  rw [RspHost.vscResponseMsg, MsgCall.dispatch] at h
  rw [vscResponseMsg, hget']
  by_cases hget : ¬ x.file.getUser
  · rw [if_pos hget] at h ⊢
    cases h
    rfl
  · rw [if_neg hget] at h ⊢
    by_cases hevent : msgType user = VSC_MSG_TYPE_EVENT
    · rw [if_pos hevent] at h ⊢
      cases h
      rfl
    · rw [if_neg hevent] at h ⊢
      by_cases hdata : msgType user = VSC_MSG_TYPE_SCSI_DATA
      · rw [if_pos hdata] at h ⊢
        exact RspHost.responseMultiDataAndRsp_ret h
      · rw [if_neg hdata] at h ⊢
        cases h
        rfl

end Entry

/-! ## Well-formed messages -/

/-- The offset of the responses in a batch that is written. -/
def rspOffset : ℕ := MAX_BATCH_SCSI_RSP_COUNT * SCSI_MAX_DATA_BUF_SIZE

/-- The count, as an unsigned number, is one of those that a batch may have. -/
def CountIn (lo hi : ℕ) (count : BitVec 32) : Prop := lo ≤ count.toNat ∧ count.toNat ≤ hi

/-- The counts of the batch in the buffer are in range. -/
def MsgCall.CountsInRange (buf : ℕ → BitVec 8) : MsgCall → Prop
  | .getMsg => CountIn 1 MAX_BATCH_SCSI_CMD_COUNT (le32At buf 4)
  | .responseMsg =>
      CountIn 0 MAX_BATCH_SCSI_RSP_COUNT (le32At buf 4) ∧
        CountIn 1 MAX_BATCH_SCSI_RSP_COUNT (le32At buf 8) ∧
          CountIn 1 MAX_BATCH_SCSI_RSP_COUNT (le32At buf (rspOffset + 4))

/-- The message without a batch that the entry point accepts. -/
def MsgCall.other : MsgCall → MsgKind
  | .getMsg => .scsiCmd
  | .responseMsg => .event

/-- **A well-formed message**: its whole type word is one of the constants, and the counts of a
batch are in range. -/
def MsgCall.WellFormed (call : MsgCall) (x : FileEnv) (user : ℕ → BitVec 8) (len : BitVec 32) :
    Prop :=
  le32At user 0 = call.other.type ∨
    le32At user 0 = VSC_MSG_TYPE_SCSI_DATA ∧ call.CountsInRange (x.scsiBuf user len)

/-- **Only well-formed messages are accepted**, as far as this message goes. -/
structure OnlyWellFormed (call : MsgCall) (H : RspHost) (x : MsgEnv) (user : ℕ → BitVec 8)
    (len : BitVec 32) : Prop where
  /-- The message is taken for what its type word says. -/
  kind : ∀ k, call.treatsAs x.file user = some k → le32At user 0 = k.type
  /-- A batch that succeeds has counts in range. -/
  counts : ∀ R, call.treatsAs x.file user = some .scsiData → call.run H x user len = some R →
    0 ≤ R.ret → call.CountsInRange (x.file.scsiBuf user len)
  /-- Any other message is refused and leaves the host alone. -/
  refused : ¬ call.WellFormed x.file user len →
    ∃ R, call.run H x user len = some R ∧ R.ret < 0 ∧ R.host = H

/-! ## What makes the difference -/

/-- The bytes that the entry point compares the first byte of a message with. -/
def MsgCall.typeBytes : MsgCall → List (BitVec 8)
  | .getMsg => [0, 2]
  | .responseMsg => [1, 2]

/-- The rest of the type word is `0` whenever its first byte decides. -/
def MsgCall.TypeIsByte (call : MsgCall) (user : ℕ → BitVec 8) : Prop :=
  user 0 ∈ call.typeBytes → user 1 = 0 ∧ user 2 = 0 ∧ user 3 = 0

/-- **A count from `2 ^ 31` on takes effect**: it is negative as an `int`, so it passes the checks
and ends its loop at once, and nothing else stops the batch. -/
def MsgCall.NegativeCount (H : RspHost) (x : FileEnv) (user : ℕ → BitVec 8) (len : BitVec 32) :
    MsgCall → Prop
  | .getMsg =>
      let buf := x.scsiBuf user len
      x.mempool ∧ x.copied .scsiBuf ∧ (le32At buf 4).toInt < 0 ∧
        le32At buf MAX_SCSI_DATA_AND_RSP_LENGTH = VSC_SCSI_BUF_TAIL_MAGIC
  | .responseMsg =>
      let buf := x.scsiBuf user len
      let rsp := fun k => buf (rspOffset + k)
      len = BitVec.ofNat 32 MAX_SCSI_DATA_AND_RSP_LENGTH ∧ x.mempool ∧ x.copied .scsiBuf ∧
        (le32At buf 4).toInt ≤ MAX_BATCH_SCSI_RSP_COUNT ∧
        ((le32At buf 8).toInt ≤ MAX_BATCH_SCSI_RSP_COUNT ∧ le32At buf 8 ≠ 0) ∧
        ((le32At rsp 4).toInt ≤ MAX_BATCH_SCSI_RSP_COUNT ∧ le32At rsp 4 ≠ 0) ∧
        ((le32At buf 4).toInt < 0 ∨ (le32At buf 8).toInt < 0 ∨ (le32At rsp 4).toInt < 0) ∧
        -- the data records, if any, are accepted, and so is the first response, if there is one
        (∀ i < (le32At buf 4).toInt.toNat, 0 ≤ x.scsiCmdData .write (recordAt buf i)
          (len - BitVec.ofNat 32 (SCSI_MAX_DATA_BUF_SIZE * i))) ∧
        (0 < (le32At rsp 4).toInt →
          H.h.cmd.Awaits (RspHost.rspAt rsp 0).tag.toNat (RspHost.rspAt rsp 0).cmdSn)

section Accepted

variable {call : MsgCall} {H : RspHost} {x : MsgEnv} {user : ℕ → BitVec 8} {len : BitVec 32}

/-- The `__u32` at an offset, as a number. -/
theorem toNat_le32At (buf : ℕ → BitVec 8) (off : ℕ) : (le32At buf off).toNat
    = (buf off).toNat + 2 ^ 8 * (buf (off + 1)).toNat + 2 ^ 16 * (buf (off + 2)).toNat
      + 2 ^ 24 * (buf (off + 3)).toNat := by
  have happend : ∀ {n : ℕ} (u : BitVec n) (v : BitVec 8),
      (u ++ v).toNat = 2 ^ 8 * u.toNat + v.toNat := by
    intro n u v
    rw [BitVec.toNat_append, ← Nat.shiftLeft_add_eq_or_of_lt v.isLt, Nat.shiftLeft_eq, Nat.mul_comm]
  rw [le32At, happend, happend, happend]
  omega

/-- A word that fits into a byte has nothing in its upper three bytes. -/
theorem le32At_eq_iff {buf : ℕ → BitVec 8} {b : BitVec 8} : le32At buf 0 = b.setWidth 32
    ↔ buf 0 = b ∧ buf 1 = 0 ∧ buf 2 = 0 ∧ buf 3 = 0 := by
  have h := toNat_le32At buf 0
  simp only [Nat.zero_add] at h
  rw [← BitVec.toNat_inj, ← BitVec.toNat_inj, ← BitVec.toNat_inj, ← BitVec.toNat_inj,
    ← BitVec.toNat_inj, BitVec.toNat_setWidth, h]
  have := b.isLt
  have := (buf 0).isLt
  have hzero : (0 : BitVec 8).toNat = 0 := rfl
  omega

/-- The constant of a kind is a byte. -/
def MsgKind.byte : MsgKind → BitVec 8
  | .scsiCmd => 0
  | .event => 1
  | .scsiData => 2

theorem MsgKind.type_eq (k : MsgKind) : k.type = k.byte.setWidth 32 := by cases k <;> decide

/-- The first byte decides what a message is taken for. -/
theorem treatsAs_iff {k : MsgKind} (hget : x.file.getUser = true) :
    call.treatsAs x.file user = some k ↔ user 0 = k.byte ∧ k.byte ∈ call.typeBytes := by
  have hbyte : ∀ b : BitVec 8, (b.signExtend 32 = VSC_MSG_TYPE_SCSI_CMD ↔ b = 0) ∧
      (b.signExtend 32 = VSC_MSG_TYPE_EVENT ↔ b = 1) ∧
      (b.signExtend 32 = VSC_MSG_TYPE_SCSI_DATA ↔ b = 2) := by decide +kernel
  obtain ⟨hcmd, hevent, hdata⟩ := hbyte (user 0)
  rw [MsgCall.treatsAs, if_neg (not_not.mpr hget), msgType]
  cases call <;> cases k <;> simp only [MsgCall.dispatch, hcmd, hevent, hdata, MsgKind.byte,
    MsgCall.typeBytes] <;> split_ifs <;> simp_all

/-- **The type**: the message is taken for what its type word says exactly when its first byte is
the whole of the type, or is not looked at. -/
theorem kind_iff : (∀ k, call.treatsAs x.file user = some k → le32At user 0 = k.type)
    ↔ (x.file.getUser = true → call.TypeIsByte user) := by
  constructor
  · intro h hget hmem
    obtain ⟨k, hk⟩ : ∃ k : MsgKind, k.byte = user 0 := by
      cases call <;> rcases List.mem_pair.mp hmem with h | h <;> rw [h]
      · exact ⟨.scsiCmd, rfl⟩
      · exact ⟨.scsiData, rfl⟩
      · exact ⟨.event, rfl⟩
      · exact ⟨.scsiData, rfl⟩
    have htype := h k ((treatsAs_iff hget).mpr ⟨hk.symm, hk ▸ hmem⟩)
    rw [k.type_eq, le32At_eq_iff] at htype
    exact htype.2
  · intro h k hk
    by_cases hget : x.file.getUser = true
    · obtain ⟨hbyte, hmem⟩ := (treatsAs_iff hget).mp hk
      rw [k.type_eq, le32At_eq_iff]
      exact ⟨hbyte, h hget (hbyte ▸ hmem)⟩
    · rw [MsgCall.treatsAs, if_pos hget] at hk
      cases hk

/-- A count is in range exactly when it is as an `int`. -/
theorem countIn_iff {lo hi : ℕ} (hhi : hi < 2 ^ 31) {count : BitVec 32} :
    CountIn lo hi count ↔ (lo : ℤ) ≤ count.toInt ∧ count.toInt ≤ hi := by
  have hlt := count.isLt
  rw [CountIn, BitVec.toInt_eq_toNat_cond]
  split_ifs with h <;> omega

/-- A count that is not `0` and not greater than `4` is in range, or negative. -/
theorem toInt_pos_of_ne {count : BitVec 32} (hne : count ≠ 0) (hneg : ¬ count.toInt < 0) :
    1 ≤ count.toInt := by
  have hzero : count.toInt ≠ 0 := fun h => hne (BitVec.eq_of_toInt_eq h)
  omega

/-- **A data batch that is read** and has a count out of range is refused, unless the count is a
negative one that takes effect. -/
theorem vscMultiScsiCmdData_refused_iff {H : RspHost} {x : FileEnv}
    (h : ¬ MsgCall.getMsg.CountsInRange (x.scsiBuf user len)) :
    (vscMultiScsiCmdData x .read user len).ret < 0 ↔
      ¬ MsgCall.getMsg.NegativeCount H x user len := by
  have hnomem : (-ENOMEM : ℤ) < 0 := by decide
  have hfault : (-EFAULT : ℤ) < 0 := by decide
  rw [MsgCall.CountsInRange, countIn_iff (by decide)] at h
  rw [vscMultiScsiCmdData, MsgCall.NegativeCount]
  dsimp only
  by_cases hpool : ¬ x.mempool
  · rw [if_pos hpool]
    exact iff_of_true hnomem fun hneg => hpool hneg.1
  rw [if_neg hpool]
  by_cases hcopied : ¬ x.copied .scsiBuf
  · rw [if_pos hcopied]
    exact iff_of_true hfault fun hneg => hcopied hneg.2.1
  rw [if_neg hcopied]
  by_cases hcount : le32At (x.scsiBuf user len) 4 = 0
      ∨ (le32At (x.scsiBuf user len) 4).toInt > MAX_BATCH_SCSI_CMD_COUNT
  · rw [if_pos hcount]
    refine iff_of_true hfault fun hneg => ?_
    rcases hcount with hzero | hgt
    · have hlt := hneg.2.2.1
      rw [hzero] at hlt
      exact absurd hlt (by decide)
    · have hlt := hneg.2.2.1
      omega
  · rw [if_neg hcount]
    -- the count is negative, and the loop ends before its first record
    rw [not_or, not_lt] at hcount
    have hneg : (le32At (x.scsiBuf user len) 4).toInt < 0 := by
      by_contra hpos
      exact h ⟨toInt_pos_of_ne hcount.1 hpos, hcount.2⟩
    have hloop : (le32At (x.scsiBuf user len) 4).toInt.toNat = 0 := Int.toNat_of_nonpos (by omega)
    rw [hloop, FileEnv.scsiCmdDataLoop, if_neg (by simp), vscFreeScsiBuf]
    by_cases hmagic : le32At (x.scsiBuf user len) MAX_SCSI_DATA_AND_RSP_LENGTH
        ≠ VSC_SCSI_BUF_TAIL_MAGIC
    · rw [if_pos hmagic]
      exact iff_of_true hfault fun h => hmagic h.2.2.2
    · rw [if_neg hmagic]
      exact iff_of_false (by simp) fun hno =>
        hno ⟨not_not.mp hpool, not_not.mp hcopied, hneg, not_not.mp hmagic⟩

/-- The call returned a negative code and left the host alone. -/
def RspHost.Refuses (H : RspHost) (o : Option RspRes) : Prop :=
  ∃ R, o = some R ∧ R.ret < 0 ∧ R.host = H

/-- A call that returns is refused by its code and what it leaves. -/
theorem RspHost.refuses_some {R : RspRes} : H.Refuses (some R) ↔ R.ret < 0 ∧ R.host = H := by
  simp [Refuses]

/-- What only changes a code into another of the same sign is refused when the call is. -/
theorem RspHost.refuses_map {f : RspRes → RspRes} {o : Option RspRes}
    (hf : ∀ R, (f R).host = R.host ∧ ((f R).ret < 0 ↔ R.ret < 0)) :
    H.Refuses (o.map f) ↔ H.Refuses o := by
  cases o with
  | none => simp [Refuses]
  | some R => rw [Option.map_some, refuses_some, refuses_some, (hf R).1, (hf R).2]

/-- **The responses of a batch** are refused when their count is out of range as an `int`, or the
first of them is turned away. A negative count passes: the loop ends at once. -/
theorem vscResponseMultiScsiCmd_refused_iff (H : RspHost) (rsp : ℕ → BitVec 8) :
    H.Refuses (H.vscResponseMultiScsiCmd rsp
        (BitVec.ofNat 32 (SIZEOF_VSC_SCSI_RSP_MSG * MAX_BATCH_SCSI_RSP_COUNT)))
      ↔ (le32At rsp 4 = 0 ∨ (le32At rsp 4).toInt > MAX_BATCH_SCSI_RSP_COUNT) ∨
        0 < (le32At rsp 4).toInt ∧
          ¬ H.h.cmd.Awaits (RspHost.rspAt rsp 0).tag.toNat (RspHost.rspAt rsp 0).cmdSn := by
  have hinval : (-EINVAL : ℤ) < 0 := by decide
  have hio : (- EIO : ℤ) < 0 := by decide
  rw [RspHost.vscResponseMultiScsiCmd, if_neg (by decide)]
  dsimp only
  by_cases hcount : le32At rsp 4 = 0 ∨ (le32At rsp 4).toInt > MAX_BATCH_SCSI_RSP_COUNT
  · rw [if_pos hcount, RspHost.refuses_some]
    exact iff_of_true ⟨hinval, rfl⟩ (.inl hcount)
  rw [if_neg hcount]
  by_cases hpos : 0 < (le32At rsp 4).toInt
  · obtain ⟨n, hn⟩ : ∃ n, (le32At rsp 4).toInt.toNat = n + 1 :=
      ⟨(le32At rsp 4).toInt.toNat - 1, by omega⟩
    rw [hn]
    by_cases hawaits : H.h.cmd.Awaits (RspHost.rspAt rsp 0).tag.toNat (RspHost.rspAt rsp 0).cmdSn
    · refine iff_of_false ?_ (not_or.mpr ⟨hcount, fun h => h.2 hawaits⟩)
      rintro ⟨R, hR, -, hhost⟩
      obtain ⟨R₁, hR₁, rfl⟩ := Option.map_eq_some_iff.mp hR
      obtain ⟨hnot, -⟩ | ⟨-, R₂, hR₂, hhost₂⟩ := RspHost.responses_succ hR₁
      · exact hnot hawaits
      · -- the slot of the first response is marked, and no later one takes the mark away
        have hstat := RspHost.responses_stat (c := (RspHost.rspAt rsp 0).tag.toNat) hR₂ (by
          rw [RspHost.withCmd, CmdPart.respond_stat, if_pos rfl])
        have hcmd : R₁.host.h.cmd = H.h.cmd := by
          by_cases hneg : R₁.ret < 0
          · rw [if_pos hneg] at hhost
            rw [hhost]
          · rw [if_neg hneg] at hhost
            have hcmd := congrArg (fun H : RspHost => H.h.cmd) hhost
            exact hcmd
        rw [← hhost₂, hcmd, hawaits.2.1] at hstat
        cases hstat
    · rw [RspHost.responses_of_not hawaits, Option.map_some, if_pos hio, RspHost.refuses_some]
      exact iff_of_true ⟨hio, rfl⟩ (.inr ⟨hpos, hawaits⟩)
  · have hloop : (le32At rsp 4).toInt.toNat = 0 := Int.toNat_of_nonpos (by omega)
    rw [hloop, RspHost.responses, Option.map_some, if_neg (Int.lt_irrefl 0), RspHost.refuses_some]
    exact iff_of_false (fun h => Int.lt_irrefl 0 h.1) (not_or.mpr ⟨hcount, fun h => hpos h.1⟩)

/-- **A batch that is written** and has a count out of range is refused, unless a negative count
takes effect. -/
theorem responseMultiDataAndRsp_refused_iff {H : RspHost} {x : FileEnv}
    (h : ¬ MsgCall.responseMsg.CountsInRange (x.scsiBuf user len)) :
    H.Refuses (H.vscResponseMultiDataAndRsp x .write user len)
      ↔ ¬ MsgCall.responseMsg.NegativeCount H x user len := by
  have hinval : (-EINVAL : ℤ) < 0 := by decide
  have hnomem : (-ENOMEM : ℤ) < 0 := by decide
  have hfault : (-EFAULT : ℤ) < 0 := by decide
  have hio : (- EIO : ℤ) < 0 := by decide
  rw [RspHost.vscResponseMultiDataAndRsp, MsgCall.NegativeCount]
  dsimp only
  by_cases hlen : len.signExtend 64 ≠ BitVec.ofNat 64 MAX_SCSI_DATA_AND_RSP_LENGTH
  · rw [if_pos hlen, RspHost.refuses_some]
    refine iff_of_true ⟨hinval, rfl⟩ fun hneg => hlen ?_
    rw [hneg.1]
    decide
  rw [if_neg hlen]
  obtain rfl := eq_of_signExtend (not_not.mp hlen)
  by_cases hpool : ¬ x.mempool
  · rw [if_pos hpool, RspHost.refuses_some]
    exact iff_of_true ⟨hnomem, rfl⟩ fun hneg => hpool hneg.2.1
  rw [if_neg hpool]
  by_cases hcopied : ¬ x.copied .scsiBuf
  · rw [if_pos hcopied, RspHost.refuses_some]
    exact iff_of_true ⟨hfault, rfl⟩ fun hneg => hcopied hneg.2.2.1
  rw [if_neg hcopied]
  generalize hbuf : x.scsiBuf user (BitVec.ofNat 32 MAX_SCSI_DATA_AND_RSP_LENGTH) = buf at h ⊢
  have hfree : vscFreeScsiBuf buf = 0 := by
    rw [← hbuf]
    exact vscFreeScsiBuf_of_fits x user (by decide)
  by_cases hcount : (le32At buf 4).toInt > MAX_BATCH_SCSI_RSP_COUNT
      ∨ (le32At buf 8).toInt > MAX_BATCH_SCSI_RSP_COUNT ∨ le32At buf 8 = 0
  · rw [if_pos hcount, RspHost.refuses_some]
    refine iff_of_true ⟨hfault, rfl⟩ ?_
    rintro ⟨-, -, -, hread, hcmd, -⟩
    rcases hcount with hgt | hgt | hzero
    · omega
    · exact absurd hcmd.1 (Int.not_le.mpr hgt)
    · exact hcmd.2 hzero
  rw [if_neg hcount]
  rw [not_or, not_or, not_lt, not_lt] at hcount
  obtain ⟨hread, hcmd, hne⟩ := hcount
  have hloop := scsiCmdDataLoop_iff x .write buf (le32At buf 4).toInt.toNat 0
    (BitVec.ofNat 32 MAX_SCSI_DATA_AND_RSP_LENGTH)
  simp only [Nat.mul_zero, Nat.zero_add, BitVec.sub_zero] at hloop
  by_cases hdata : ¬ x.scsiCmdDataLoop .write buf (le32At buf 4).toInt.toNat 0
      (BitVec.ofNat 32 MAX_SCSI_DATA_AND_RSP_LENGTH)
  · rw [if_pos hdata, RspHost.refuses_some]
    refine iff_of_true ⟨hio, rfl⟩ ?_
    rintro ⟨-, -, -, -, -, -, -, hrecords, -⟩
    exact hdata (hloop.mpr hrecords)
  rw [if_neg hdata]
  have hmap : ∀ R : RspRes,
      (if R.ret < 0 then { R with ret := - EIO } else { R with ret := vscFreeScsiBuf buf }).host
        = R.host ∧
      ((if R.ret < 0 then { R with ret := - EIO } else { R with ret := vscFreeScsiBuf buf }).ret < 0
        ↔ R.ret < 0) := by
    intro R
    by_cases hneg : R.ret < 0
    · rw [if_pos hneg]
      exact ⟨rfl, iff_of_true hio hneg⟩
    · rw [if_neg hneg]
      exact ⟨rfl, iff_of_false (by simp [hfree]) hneg⟩
  have hrest : BitVec.ofNat 32 MAX_SCSI_DATA_AND_RSP_LENGTH
      - BitVec.ofNat 32 (MAX_BATCH_SCSI_RSP_COUNT * SCSI_MAX_DATA_BUF_SIZE)
        = BitVec.ofNat 32 (SIZEOF_VSC_SCSI_RSP_MSG * MAX_BATCH_SCSI_RSP_COUNT) := by decide
  have hrsp : MAX_BATCH_SCSI_RSP_COUNT * SCSI_MAX_DATA_BUF_SIZE = rspOffset := rfl
  have hcounts : ¬ (0 ≤ (le32At buf 4).toInt ∧ 1 ≤ (le32At buf 8).toInt ∧
      1 ≤ (le32At (fun k => buf (rspOffset + k)) 4).toInt ∧
      (le32At (fun k => buf (rspOffset + k)) 4).toInt ≤ MAX_BATCH_SCSI_RSP_COUNT) := by
    rintro ⟨h₁, h₂, h₃, h₄⟩
    refine h ⟨(countIn_iff (by decide)).mpr ⟨h₁, hread⟩, (countIn_iff (by decide)).mpr ⟨h₂, hcmd⟩,
      (countIn_iff (by decide)).mpr ⟨h₃, h₄⟩⟩
  rw [RspHost.refuses_map hmap, hrest, hrsp, vscResponseMultiScsiCmd_refused_iff]
  constructor
  · rintro (hbad | ⟨hpos, hnot⟩) ⟨_, _, _, _, _, ⟨hle, hne₃⟩, _, _, hfirst⟩
    · rcases hbad with hzero | hgt
      · exact hne₃ hzero
      · exact absurd hle (Int.not_le.mpr hgt)
    · exact hnot (hfirst hpos)
  · intro hno
    by_contra hacc
    rw [not_or, not_or, not_lt, not_and, not_not] at hacc
    obtain ⟨⟨hne₃, hle⟩, hfirst⟩ := hacc
    refine hno ⟨rfl, not_not.mp hpool, not_not.mp hcopied, hread, ⟨hcmd, hne⟩, ⟨hle, hne₃⟩, ?_,
      hloop.mp (not_not.mp hdata), hfirst⟩
    -- some count is out of range although none of them is too large or `0`
    by_contra hpos
    rw [not_or, not_or, not_lt] at hpos
    exact hcounts ⟨hpos.1, toInt_pos_of_ne hne hpos.2.1, toInt_pos_of_ne hne₃ hpos.2.2, hle⟩

/-- The `__u32` at an offset of a part of a buffer. -/
theorem le32At_add (buf : ℕ → BitVec 8) (a off : ℕ) :
    le32At (fun k => buf (a + k)) off = le32At buf (a + off) := rfl

/-- A negative count is out of range. -/
theorem not_countsInRange_of_negativeCount {x : FileEnv} (h : call.NegativeCount H x user len) :
    ¬ call.CountsInRange (x.scsiBuf user len) := by
  cases call with
  | getMsg =>
      obtain ⟨-, -, hlt, -⟩ := h
      rw [MsgCall.CountsInRange, countIn_iff (by decide)]
      omega
  | responseMsg =>
      obtain ⟨-, -, -, -, -, -, hlt, -⟩ := h
      rw [le32At_add] at hlt
      rw [MsgCall.CountsInRange, countIn_iff (by decide), countIn_iff (by decide),
        countIn_iff (by decide)]
      omega

/-- An entry point takes a message for a batch or for the one other kind it knows. -/
theorem eq_other_of_treatsAs {k : MsgKind} (h : call.treatsAs x.file user = some k)
    (hk : k ≠ .scsiData) : k = call.other := by
  rw [MsgCall.treatsAs] at h
  split_ifs at h
  cases call with
  | getMsg =>
      rw [MsgCall.dispatch] at h
      split_ifs at h <;> simp_all [MsgCall.other]
  | responseMsg =>
      rw [MsgCall.dispatch] at h
      split_ifs at h <;> simp_all [MsgCall.other]

/-- A message that is not taken for anything is refused. -/
theorem refuses_of_treatsAs_none (h : call.treatsAs x.file user = none) :
    H.Refuses (call.run H x user len) := by
  have hfault : (-EFAULT : ℤ) < 0 := by decide
  have hinval : (-EINVAL : ℤ) < 0 := by decide
  rw [MsgCall.treatsAs] at h
  cases call with
  | getMsg =>
      rw [MsgCall.run, RspHost.vscGetMsg]
      by_cases hget : ¬ x.file.getUser
      · rw [if_pos hget, RspHost.refuses_some]
        exact ⟨hfault, rfl⟩
      · rw [if_neg hget] at h ⊢
        rw [h, RspHost.refuses_some]
        exact ⟨hinval, rfl⟩
  | responseMsg =>
      rw [MsgCall.run, RspHost.vscResponseMsg]
      by_cases hget : ¬ x.file.getUser
      · rw [if_pos hget, RspHost.refuses_some]
        exact ⟨hfault, rfl⟩
      · rw [if_neg hget] at h ⊢
        rw [h, RspHost.refuses_some]
        exact ⟨hinval, rfl⟩

/-- **A batch** with a count out of range is refused, unless a negative count takes effect. -/
theorem batch_refused_iff (htreat : call.treatsAs x.file user = some .scsiData)
    (h : ¬ call.CountsInRange (x.file.scsiBuf user len)) :
    H.Refuses (call.run H x user len) ↔ ¬ call.NegativeCount H x.file user len := by
  have hget : ¬ ¬ x.file.getUser := fun hget => by
    rw [MsgCall.treatsAs, if_pos hget] at htreat
    cases htreat
  rw [MsgCall.treatsAs, if_neg hget] at htreat
  cases call with
  | getMsg =>
      rw [MsgCall.run, RspHost.vscGetMsg, if_neg hget, htreat, RspHost.refuses_some]
      exact (and_iff_left rfl).trans (vscMultiScsiCmdData_refused_iff h)
  | responseMsg =>
      rw [MsgCall.run, RspHost.vscResponseMsg, if_neg hget, htreat]
      exact responseMultiDataAndRsp_refused_iff h

end Accepted

/-- **For which messages nothing but a well-formed message is accepted**: exactly those whose type
word is no more than its first byte, if that byte decides, and which have no negative count that
takes effect. -/
theorem onlyWellFormed_iff (call : MsgCall) (H : RspHost) (x : MsgEnv) (user : ℕ → BitVec 8)
    (len : BitVec 32) : OnlyWellFormed call H x user len ↔
      (x.file.getUser = true → call.TypeIsByte user) ∧
        ¬ (call.treatsAs x.file user = some .scsiData ∧ call.NegativeCount H x.file user len) := by
  constructor
  · intro h
    refine ⟨kind_iff.mp h.kind, fun ⟨htreat, hneg⟩ => ?_⟩
    have hcounts := not_countsInRange_of_negativeCount hneg
    have hwell : ¬ call.WellFormed x.file user len := by
      rintro (hother | ⟨-, hin⟩)
      · have htype := h.kind _ htreat
        rw [hother] at htype
        cases call with
        | getMsg => exact absurd htype (by decide)
        | responseMsg => exact absurd htype (by decide)
      · exact hcounts hin
    exact (batch_refused_iff htreat hcounts).mp (h.refused hwell) hneg
  · rintro ⟨hbyte, hneg⟩
    have hkind := kind_iff.mpr hbyte
    have hrefused : ¬ call.WellFormed x.file user len → H.Refuses (call.run H x user len) := by
      intro hwell
      cases htreat : call.treatsAs x.file user with
      | none => exact refuses_of_treatsAs_none htreat
      | some k =>
          have htype := hkind k htreat
          by_cases hk : k = .scsiData
          · subst hk
            refine (batch_refused_iff htreat fun hin => hwell (.inr ⟨htype, hin⟩)).mpr fun hn => ?_
            exact hneg ⟨htreat, hn⟩
          · refine absurd (.inl ?_) hwell
            rw [htype, eq_other_of_treatsAs htreat hk]
    refine ⟨hkind, fun R htreat hR hret => ?_, hrefused⟩
    by_contra hin
    have href := (batch_refused_iff htreat hin).mpr fun hn => hneg ⟨htreat, hn⟩
    rw [hR, RspHost.refuses_some] at href
    omega

/-! ### Messages that are not well formed -/

/-- A host without commands. -/
def freshRspHost : RspHost := ⟨bootHost 1 0 0, 0, 0⟩

/-- A host whose copies succeed. -/
def plainMsgEnv : MsgEnv := ⟨attachedFile, id, id⟩

/-- A data batch of `2 ^ 31` records. -/
def hugeBatch : ℕ → BitVec 8 := fun k => if k = 0 then 2 else if k = 7 then 0x80 else 0

/-- A message of type `0x102`. -/
def wideType : ℕ → BitVec 8 := fun k => if k = 0 then 2 else if k = 1 then 1 else 0

/-- A batch without data that announces one response, and `2 ^ 31` in its first response. -/
def skewedBatch : ℕ → BitVec 8 := fun k =>
  if k = 0 then 2 else if k = 8 then 1 else if k = rspOffset + 7 then 0x80 else 0

/-- **Malformed messages are accepted**: a data batch of `2 ^ 31` records is read with success, a
message of type `0x102` is taken for a data batch, and a batch whose second count is `2 ^ 31`
succeeds and adds it to `put_rsp_total`. -/
theorem malformed_accepted :
    ¬ OnlyWellFormed .getMsg freshRspHost plainMsgEnv hugeBatch 44 ∧
      ¬ OnlyWellFormed .getMsg freshRspHost plainMsgEnv wideType 44 ∧
        ¬ OnlyWellFormed .responseMsg freshRspHost plainMsgEnv skewedBatch
          (BitVec.ofNat 32 MAX_SCSI_DATA_AND_RSP_LENGTH) := by
  refine ⟨fun h => ?_, fun h => ?_, fun h => ?_⟩
  · have hin := h.counts ⟨0, freshRspHost, []⟩ (by decide) rfl (by decide)
    exact absurd hin.2 (by decide)
  · exact absurd (h.kind .scsiData (by decide)) (by decide)
  · have hin := h.counts ⟨0, { freshRspHost with putRspTimes := 1, putRspTotal := 0x80000000 }, []⟩
      (by decide) rfl (by decide)
    exact absurd hin.2.2.2 (by decide)

end Vsc
