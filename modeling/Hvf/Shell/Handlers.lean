/-
# Command handlers

The handlers of `shell/cmd_*.c`, as far as they look at their operand: `cmd` is what follows
the command on the line, `NULL` where nothing does, and `len` is said to be its length.

`CmdAct` is what a handler goes on to do with what it has made of its operand; the
handlers that do not look at it have no part here beyond their privilege class.
`CmdResult.fault` is the end of a handler that reads at `NULL`.
-/

import Hvf.CString
import Hvf.Shell.StorePsw

namespace Hvf

/-! ### Privileges -/

/-- `AUTH_A`, `AUTH_B` and `AUTH_E`; `AUTH_G` is `authG`. -/
def authA : BitVec 8 := 0x80

/-- `AUTH_B`: device operations. -/
def authB : BitVec 8 := 0x40

/-- `AUTH_E`: the system analyst, who may look at real storage. -/
def authE : BitVec 8 := 0x08

/-- **The functions in the tables of commands**, by the source's names. -/
inductive CmdFn
  | cmdBegin | cmdStop | cmdEnable | cmdLogonFail | cmdIpl | cmdSystem
  | cmdDisplayAr | cmdDisplayCr | cmdDisplayFpcr | cmdDisplayFpr | cmdDisplayGpr | cmdDisplayPsw
  | cmdDisplaySchib | cmdDisplaySiecb | cmdDisplayStorage
  | cmdQueryArchmode | cmdQueryCplevel | cmdQueryTime | cmdQueryVirtual | cmdQueryReal
  | cmdQueryNames | cmdQueryTask | cmdQueryUserid
  | cmdSetNots | cmdSetTs
  | cmdStoreAr | cmdStoreCr | cmdStoreFpcr | cmdStoreFpr | cmdStoreGpr | cmdStorePsw
  | cmdStoreStorage
deriving DecidableEq, Repr

/-- The class that `SHELL_CMD_AUTH` asks for. -/
def CmdFn.auth : CmdFn → Option (BitVec 8)
  | .cmdLogonFail => none
  | .cmdEnable => some authA
  | .cmdQueryReal => some authB
  | .cmdDisplaySiecb | .cmdQueryTask => some authE
  | _ => some authG

/-- **What the handlers look at of the guest**: its directory entry's privilege classes, its
mode and its PSW. -/
structure ShellEnv where
  auth : BitVec 8
  zarch : Bool
  psw : Psw

/-- `SHELL_CMD_AUTH` ends the handler. -/
def ShellEnv.denies (env : ShellEnv) (f : CmdFn) : Bool := f.auth.any (env.auth &&& · == 0)

/-! ### What a handler does -/

/-- **What follows the operands** once a handler has read them: the values that it goes on
with. -/
inductive CmdAct
  | plain
  | enable (devnum : UInt64)
  | ipl (fn : Option (List UInt8))
  | reset (clear : Bool)
  | displayPsw (disp : ℕ)
  | displaySchib (sch : Option UInt64)
  | displayStorage (instruct : Bool) (guestAddr mlen : UInt64)
  | queryReal (what : ℕ)
  | storeReg (reg val : UInt64)
  | storeFpcr (val : UInt64)
  | storePsw (reply : PswReply)
  | storeStorage (guestAddr val : UInt64)
deriving DecidableEq

/-- **How a handler ends**: it reads at `NULL`, returns a code with a line on the console,
if any, or acts on what it has read. -/
inductive CmdResult
  | fault
  | ret (ret : Int) (line : List UInt8)
  | act (act : CmdAct)
deriving DecidableEq

/-- `IS_ERR(cmd)`: the error is returned. -/
def CmdResult.bind {α : Type} (r : Except Int α) (f : α → CmdResult) : CmdResult :=
  match r with
  | .error e => .ret e []
  | .ok a => f a

/-- Keywords, and a number where none of them stands. -/
def keywordOrHex (keywords : List (List UInt8 × CmdResult)) (bad : UInt64 → Bool)
    (number : UInt64 → CmdResult) (cmd : List UInt8) : CmdResult :=
  match keywords.find? fun k => strcasecmp cmd k.1 = 0 with
  | some k => k.2
  | none => .bind (extractHexPtr (some cmd)) fun r =>
    if bad r.2 then .ret (-einval) [] else number r.2

/-- A device number has 16 bits. -/
def notDevnum (devnum : UInt64) : Bool := devnum &&& ~~~0xffff ≠ 0

/-- `cmd_enable`. -/
def enableOperands : List (List UInt8 × CmdResult) :=
  [(ascii "ALL", .ret 0 (ascii "ENABLE ALL not yet implemented!"))]

/-- `cmd_enable` on its operand: `ALL` or a device number. -/
def enableText : List UInt8 → CmdResult :=
  keywordOrHex enableOperands notDevnum fun devnum => .act (.enable devnum)

/-- `cmd_ipl`.  The device number that is extracted is not used: the name of a system is
looked up, of up to 8 characters. -/
def iplText (cmd : List UInt8) : CmdResult :=
  .act (.ipl (if 8 < min cmd.length 9 then none
    else some ((cmd ++ List.replicate 8 0x20).take 8)))

/-- `cmd_system`. -/
def systemOperands : List (List UInt8 × CmdResult) :=
  [(ascii "CLEAR", .act (.reset true)), (ascii "RESET", .act (.reset false)),
   (ascii "RESTART", .ret 0 (ascii "SYSTEM RESTART is not yet supported")),
   (ascii "STORE", .ret 0 (ascii "SYSTEM STORE is not yet supported"))]

/-- `cmd_system` on its operand: one of its variables, or the message that there is none such.
-/
def systemText (cmd : List UInt8) : CmdResult :=
  match systemOperands.find? fun k => strcasecmp cmd k.1 = 0 with
  | some k => k.2
  | none => .ret 0 (ascii "SYSTEM: Unknown variable '" ++ cmd ++ ascii "'")

/-- The operands of `DISPLAY PSW`, with what they display. -/
def pswOperands : List (List UInt8 × ℕ) :=
  [(ascii "ALL", 0x7f), (ascii "RST", 0x40), (ascii "EXT", 0x02), (ascii "SVC", 0x04),
   (ascii "PRG", 0x08), (ascii "MCH", 0x10), (ascii "I/O", 0x20)]

/-- `cmd_display_psw`. -/
def displayPswText (cmd : List UInt8) : CmdResult :=
  match pswOperands.find? fun k => strcasecmp cmd k.1 = 0 with
  | some k => .act (.displayPsw k.2)
  | none => .act (.displayPsw 0x01)

/-- The number of a subchannel is X'0001____'. -/
def notSch (sch : UInt64) : Bool := sch &&& 0xffff0000 ≠ 0x00010000

/-- The keyword that `cmd_display_schib` takes for all subchannels. -/
def schibOperands : List (List UInt8 × CmdResult) := [(ascii "ALL", .act (.displaySchib none))]

/-- `cmd_display_schib` on its operand: `ALL` or a subchannel. -/
def displaySchibText : List UInt8 → CmdResult :=
  keywordOrHex schibOperands notSch fun sch => .act (.displaySchib (some sch))

/-- The format in front of an address, if there is one, is cut off; it is set for `I`. -/
def displayFmt : List UInt8 → Bool × List UInt8
  | [] => (false, [])
  | c :: cmd =>
    if c = 0x4e ∨ c = 0x6e then (false, cmd)
    else if c = 0x49 ∨ c = 0x69 then (true, cmd)
    else (false, c :: cmd)

/-- `cmd_display_storage`. -/
def displayStorageText (cmd : List UInt8) : CmdResult :=
  match parseAddrspec true (displayFmt cmd).2 with
  | .error _ => .ret 0 (ascii "DISPLAY: Invalid addr-spec")
  | .ok (_, guestAddr, mlen) => .act (.displayStorage (displayFmt cmd).1 guestAddr mlen)

/-- What `cmd_query_real` compares its operand to. -/
def realOperands : List (List UInt8 × CmdResult) :=
  [(ascii "ALL", .act (.queryReal 7)), (ascii "CPUS", .act (.queryReal 1)),
   (ascii "STOR", .act (.queryReal 2)), (ascii "STORA", .act (.queryReal 2)),
   (ascii "STORAG", .act (.queryReal 2)), (ascii "STORAGE", .act (.queryReal 2))]

/-- `cmd_query_real`; the length is that of `strnlen`. -/
def queryRealText (cmd : List UInt8) (len : Int) : CmdResult :=
  if len = 0 ∨ cmd = [] then .act (.queryReal 7)
  else keywordOrHex realOperands notDevnum (fun _ => .act (.queryReal 8)) cmd

/-- `cmd_store_gpr`, `cmd_store_fpr`, `cmd_store_cr` and `cmd_store_ar`: the number of a
register and what goes into it, which has to fit. -/
def storeRegister (bad : UInt64 → Bool) (cmd : Option (List UInt8)) : CmdResult :=
  .bind (extractDecPtr cmd) fun (cmd, reg) =>
    if reg > 15 then .ret (-einval) []
    else .bind (extractHexPtr (consumeWs (some cmd))) fun (_, val) =>
      if bad val then .ret (-einval) [] else .act (.storeReg reg val)

/-- What is too large for 32 bits. -/
def notWord (val : UInt64) : Bool := val > 0xffffffff

/-- `cmd_store_fpcr`. -/
def storeFpcr (cmd : Option (List UInt8)) : CmdResult :=
  .bind (extractHexPtr cmd) fun (_, val) =>
    if notWord val then .ret (-einval) [] else .act (.storeFpcr val)

/-- `cmd_store_storage`; the address is rounded down to a word. -/
def storeStorageText (cmd : List UInt8) : CmdResult :=
  match parseAddrspec false cmd with
  | .error e => .ret e (ascii "STORE: Invalid addr-spec")
  | .ok (cmd, guestAddr, _) =>
    .bind (extractHexPtr (consumeWs (some cmd))) fun (_, val) =>
      .act (.storeStorage (guestAddr &&& ~~~3) val)

/-- A handler whose first look at its operand is through the pointer. -/
def derefs (text : List UInt8 → CmdResult) : Option (List UInt8) → CmdResult
  | none => .fault
  | some cmd => text cmd

/-- The handlers, behind `SHELL_CMD_AUTH`. -/
def CmdFn.body (env : ShellEnv) (cmd : Option (List UInt8)) (len : Int) : CmdFn → CmdResult
  | .cmdEnable => derefs enableText cmd
  | .cmdIpl => derefs iplText cmd
  | .cmdSystem => derefs systemText cmd
  | .cmdDisplayPsw => derefs displayPswText cmd
  | .cmdDisplaySchib => derefs displaySchibText cmd
  | .cmdDisplayStorage => derefs displayStorageText cmd
  | .cmdQueryReal =>
    -- `strnlen` does not look at a string of which no character counts
    if cmd = none ∧ len = 0 then .act (.queryReal 7)
    else derefs (queryRealText · len) cmd
  | .cmdStoreAr => storeRegister notWord cmd
  | .cmdStoreCr | .cmdStoreFpr | .cmdStoreGpr => storeRegister (fun _ => false) cmd
  | .cmdStoreFpcr => storeFpcr cmd
  | .cmdStorePsw => .act (.storePsw (Hvf.cmdStorePsw env.auth env.zarch env.psw cmd))
  | .cmdStoreStorage => derefs storeStorageText cmd
  | _ => .act .plain

/-- A handler. -/
def CmdFn.call (env : ShellEnv) (f : CmdFn) (cmd : Option (List UInt8)) (len : Int) : CmdResult :=
  if env.denies f then .ret (-eperm) [] else f.body env cmd len

end Hvf
