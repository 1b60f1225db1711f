/-
# The directory grammar

`cp/nucleus/direct.y` with the values of the tokens from `cp/nucleus/direct.l`,
`hex`, `bcd2dec` and `strdup` of `cp/nucleus/util.c`, and `directory_alloc_user`.

The productions are relations between the tokens a nonterminal derives and the
value of its action; they have no conflicts, so what the generated parser accepts
is what `users` derives.  An action with a failed assertion or a `BUG` gives no
value.  Memory does not run out.

`strdup` allocates and copies the characters without the zero byte behind them,
so the string goes on with what the memory behind the copy holds up to the next
zero byte: `heap k` for the copy of the `k`th word.
-/

import Hvf.Nucleus.LexerFill

namespace Hvf

/-! ### Values of tokens -/

/-- A digit of `hex`. -/
def hexDigit (c : Char) : Option (BitVec 64) :=
  if '0' ≤ c ∧ c ≤ '9' then some (.ofNat 64 (c.toNat - '0'.toNat))
  else if 'A' ≤ c ∧ c ≤ 'F' then some (.ofNat 64 (c.toNat - 'A'.toNat + 10))
  else if 'a' ≤ c ∧ c ≤ 'f' then some (.ofNat 64 (c.toNat - 'a'.toNat + 10))
  else none

/-- `hex`; none where it returns 1. -/
def hex (l : List Char) : Option (BitVec 64) :=
  if l = [] then none
  else l.foldlM (fun val c => (hexDigit c).map fun d => val <<< 4 ||| d) 0

/-- The loop of `bcd2dec`; 16 digits are a double word. -/
def bcd2decLoop : ℕ → BitVec 64 → BitVec 64 → BitVec 64 → Option (BitVec 64)
  | 0, _, v, _ => some v
  | n + 1, val, v, scale =>
    if val = 0 then some v
    else
      let x := val &&& 0xf
      if 10 ≤ x then none else bcd2decLoop n (val >>> 4) (v + x * scale) (scale * 10)

/-- `bcd2dec`; none where it returns 1. -/
def bcd2dec (val : BitVec 64) : Option (BitVec 64) := bcd2decLoop 16 val 0 1

/-- How often the `switch` of `STORSPEC` multiplies by 1024. -/
def storspecScale (c : Char) : ℕ :=
  if c = 'P' then 5 else if c = 'T' then 4 else if c = 'G' then 3 else if c = 'M' then 2
  else if c = 'K' then 1 else 0

/-- The value of `STORSPEC`; the result of `bcd2dec` is not looked at. -/
def storspec (l : List Char) : BitVec 64 :=
  let num := (hex l.dropLast).getD 0
  let num := (bcd2dec num).getD num
  num * 1024 ^ storspecScale (l.getLastD ' ')

/-- **A token of a directory as the parser sees it**, with its value: the number, or the
copy of the word that `strdup` has made. -/
inductive Sym
  | nline | comment | user | machine | storage | console | spool | reader | punch | print | mdisk
  | storspec (num : BitVec 64)
  | num (num : BitVec 64)
  | word (ptr : List Char)
  deriving DecidableEq, Repr

/-- The token `direct_lex` returns; none for blanks. -/
def sym (heap : List Char) (kind : DirectToken) (l : List Char) : Option Sym :=
  match kind with
  | .nline => some .nline
  | .comment => some .comment
  | .user => some .user
  | .machine => some .machine
  | .storage => some .storage
  | .console => some .console
  | .spool => some .spool
  | .reader => some .reader
  | .punch => some .punch
  | .print => some .print
  | .mdisk => some .mdisk
  | .storspec => some (.storspec (storspec l))
  | .num => some (.num ((hex l).getD 0))
  | .word => some (.word (l ++ heap))
  | .blank => none

/-- The tokens behind the first `k` words. -/
def lexSyms (heap : ℕ → List Char) : ℕ → List (DirectToken × List Char) → List Sym
  | _, [] => []
  | k, (kind, l) :: toks =>
    (sym (heap k) kind l).toList ++ lexSyms heap (if kind = .word then k + 1 else k) toks

/-! ### Actions -/

/-- **The properties of a user under way** (`struct directory_prop`): whether there was a
storage size, and which. -/
structure DirectoryProp where
  gotStorage : Bool
  storage : BitVec 64
  deriving DecidableEq, Repr

/-- **A virtual device of a directory entry** (`struct directory_vdev`), by its kind. -/
inductive DirectoryVdev
  | cons (vdev : BitVec 16)
  | spool (vdev type : BitVec 16) (model : BitVec 8)
  | mdisk (vdev cyloff cylcnt rdev : BitVec 16)
  deriving DecidableEq, Repr

/-- **A user of the directory**: what the directory says about a `struct user`. -/
structure User where
  userid : List Char
  storageSize : BitVec 64
  devices : List DirectoryVdev
  auth : BitVec 8
  deriving DecidableEq, Repr

/-- `merge_props`; without storage in either, `$$` is `$1`. -/
def mergeProps (a b : DirectoryProp) : Option DirectoryProp :=
  if a.gotStorage && !b.gotStorage then some ⟨true, a.storage⟩
  else if !a.gotStorage && b.gotStorage then some ⟨true, b.storage⟩
  else if a.gotStorage && b.gotStorage then none
  else some ⟨false, a.storage⟩

/-- `__alloc_spool_vdev(VDEV_CONS, ..)`. -/
def allocConsVdev (devnum typenum : BitVec 64) : Option DirectoryVdev :=
  if devnum ≤ 0xffff ∧ typenum ≤ 0xffff then some (.cons (devnum.setWidth 16)) else none

/-- `__alloc_spool_vdev(VDEV_SPOOL, ..)`. -/
def allocSpoolVdev (devnum typenum : BitVec 64) : Option DirectoryVdev :=
  if devnum ≤ 0xffff ∧ typenum ≤ 0xffff then
    some (.spool (devnum.setWidth 16) (typenum.setWidth 16) 0)
  else none

/-- `__alloc_mdisk_vdev`. -/
def allocMdiskVdev (devnum typenum start len rdev : BitVec 64) : Option DirectoryVdev :=
  if devnum ≤ 0xffff ∧ typenum ≤ 0xffff ∧ start ≤ 0xffff ∧ len ≤ 0xffff ∧ rdev ≤ 0xffff then
    some (.mdisk (devnum.setWidth 16) (start.setWidth 16) (len.setWidth 16) (rdev.setWidth 16))
  else none

/-- `AUTH_A` to `AUTH_G`. -/
def authClasses : List (Char × BitVec 32) :=
  [('A', 0x80), ('B', 0x40), ('C', 0x20), ('D', 0x10), ('E', 0x08), ('F', 0x04), ('G', 0x02)]

/-- The loop of `__auth_str`. -/
def authStrLoop (a : BitVec 32) : List Char → BitVec 32
  | [] => a
  | c :: cs =>
    match authClasses.lookup c with
    | some auth => authStrLoop (a ||| auth) cs
    | none => -1

/-- `__auth_str`. -/
def authStr (ptr : List Char) : BitVec 32 := authStrLoop 0 ptr

/-- `__auth_int`, which grants class G whatever the number. -/
def authInt (_ : BitVec 64) : BitVec 32 := 0x02

/-- `directory_alloc_user`; the authorization is cut to a byte. -/
def directoryAllocUser (name : List Char) (auth : BitVec 32) (prop : DirectoryProp)
    (vdevs : List DirectoryVdev) : Option User :=
  if prop.gotStorage then
    some { userid := name, storageSize := prop.storage, devices := vdevs, auth := auth.setWidth 8 }
  else none

/-! ### Productions -/

/-- **`prop` of the grammar**, with the value of its action: one constructor for each
alternative of `direct.y`. -/
inductive IsProp : List Sym → DirectoryProp → Prop
  | machine {ptr num} : IsProp [.machine, .word ptr, .num num, .nline] ⟨false, 0⟩
  | storspec {num} : IsProp [.storage, .storspec num, .nline] ⟨true, num⟩
  | num {num storage} (h : bcd2dec num = some storage) :
      IsProp [.storage, .num num, .nline] ⟨true, storage⟩

/-- **`vdev` of the grammar**, with the device that its action allocates; an alternative
whose action stops the machine has no value. -/
inductive IsVdev : List Sym → DirectoryVdev → Prop
  | console {d t vdev} (h : allocConsVdev d t = some vdev) :
      IsVdev [.console, .num d, .num t, .nline] vdev
  | reader {d t vdev} (h : allocSpoolVdev d t = some vdev) :
      IsVdev [.spool, .num d, .num t, .reader, .nline] vdev
  | punch {d t vdev} (h : allocSpoolVdev d t = some vdev) :
      IsVdev [.spool, .num d, .num t, .punch, .nline] vdev
  | print {d t vdev} (h : allocSpoolVdev d t = some vdev) :
      IsVdev [.spool, .num d, .num t, .print, .nline] vdev
  | mdisk {d t start len rdev vdev} (h : allocMdiskVdev d t start len rdev = some vdev) :
      IsVdev [.mdisk, .num d, .num t, .num start, .num len, .num rdev, .nline] vdev

/-- **`props` of the grammar**: the properties are merged one by one, and a second storage
size is refused. -/
inductive IsProps : List Sym → DirectoryProp → Prop
  | prop {toks p} (h : IsProp toks p) : IsProps toks p
  | props {toks toks' p p' merged} (h : IsProps toks p) (h' : IsProp toks' p')
      (hmerge : mergeProps p p' = some merged) : IsProps (toks ++ toks') merged

/-- **`vdevs` of the grammar**; `list_add` puts a device at the head of the list, so the
list has them the other way round. -/
inductive IsVdevs : List Sym → List DirectoryVdev → Prop
  | vdev {toks vdev} (h : IsVdev toks vdev) : IsVdevs toks [vdev]
  | vdevs {toks toks' vdevs vdev} (h : IsVdevs toks vdevs) (h' : IsVdev toks' vdev) :
      IsVdevs (toks ++ toks') (vdev :: vdevs)

/-- **`user` of the grammar**: a header with the classes as a word or as a number,
properties, and devices. -/
inductive IsUser : List Sym → User → Prop
  | word {name auth toks toks' prop vdevs user} (hprops : IsProps toks prop)
      (hvdevs : IsVdevs toks' vdevs)
      (h : directoryAllocUser name (authStr auth) prop vdevs = some user) :
      IsUser ([.user, .word name, .word auth, .nline] ++ toks ++ toks') user
  | num {name auth toks toks' prop vdevs user} (hprops : IsProps toks prop)
      (hvdevs : IsVdevs toks' vdevs)
      (h : directoryAllocUser name (authInt auth) prop vdevs = some user) :
      IsUser ([.user, .word name, .num auth, .nline] ++ toks ++ toks') user

/-- **`users` of the grammar**; `list_add_tail` puts a user at the end of the directory. An
empty line stands between two users, and one may stand before the first. -/
inductive IsUsers : List Sym → List User → Prop
  | users {toks toks' users user} (h : IsUsers toks users) (h' : IsUser toks' user) :
      IsUsers (toks ++ .nline :: toks') (users ++ [user])
  | user {toks user} (h : IsUser toks user) : IsUsers toks [user]
  | empty : IsUsers [.nline] []

/-- `load_directory` returns 0 and has built `users`. -/
def Loads (heap : ℕ → List Char) (text : List Char) (users : List User) : Prop :=
  ∃ toks, tokens directKinds text = some toks ∧ IsUsers (lexSyms heap 0 toks) users

end Hvf
