import Kdm.Args.Parse
import Kdm.Client.Environ
import Kdm.Lib.Abort

/-!
# The process that a session hangs on

`client.c` and `process.c`: who the session process is, how it becomes somebody else, and the programs
that it runs.  A process that ends is a computation that is broken off.

* `Cred` — the identity of a process.
* `Deed` — what a process does, noted together with its identity at that moment.
* `World` — the variables of the process, and the answers of the system that are still to come.

All calls may fail.  Signals, descriptors and the messages to the greeter and to the daemon are left out.
-/

namespace Kdm.Client

open Abort
open Printf (Text str)

/-- The real, the effective and the saved ids are the same. -/
structure Cred where
  uid : Nat
  gid : Nat
  groups : List Nat
deriving DecidableEq

structure Passwd where
  pw_name : Text
  pw_uid : Nat
  pw_gid : Nat
  pw_dir : Text
  pw_shell : Text

/-- A call of PAM. -/
inductive PamCall
  | setcred
  | open_session
  | close_session
  | deleteCred
  | pam_end
deriving DecidableEq

/-- What is done in the home directory, or with the name of the user's log. -/
inductive HomeAct
  | setUserAuthorization
  | removeUserAuthorization
  | chdir
  | createClientLog
  | mergeSessionArgs
deriving DecidableEq

inductive Deed
  /-- `execve` of a script of the configuration -/
  | script (argv : List Text) (env : StrArr)
  /-- `execve` of the session, or of the failsafe client -/
  | client (argv : List Text) (env : StrArr)
  /-- `waitpid` for a script; no status if it fails -/
  | exited (status : Option Nat)
  /-- `sessreg` -/
  | register (login : Bool)
  | pam (call : PamCall)
  | home (act : HomeAct)

structure World where
  cred : Cred
  /-- `none` for a null pointer with a number other than 0 -/
  saved_gids : Option (List Nat)
  removeAuth : Bool
  removeSession : Bool
  removeCreds : Bool
  /-- there is a handle of PAM -/
  pamh : Bool
  userEnviron : StrArr
  systemEnviron : StrArr
  deeds : List (Cred × Deed)
  /-- whether the next calls succeed -/
  sys : Nat → Bool
  /-- what `waitpid` gives -/
  statuses : Nat → Option Nat
  heap : Heap

abbrev M (α : Type) := EStateM Unit World α

/-- The end of the process. -/
def exit {α : Type} : M α := throw ()

/-- The next call succeeds. -/
def answer : M Bool := modifyGet fun w => (w.sys 0, { w with sys := fun n => w.sys (n + 1) })

def act (deed : Deed) : M Unit := modify fun w => { w with deeds := w.deeds ++ [(w.cred, deed)] }

/-- `if` without `else`. -/
def runIf (b : Bool) (m : M Unit) : M Unit := if b then m else pure ()

/-- What the calls do to an environment. -/
def build (ops : List Op) (e : StrArr) : M StrArr := modifyGet fun w =>
  (run w.heap ops e, { w with heap := fun n => w.heap (n + ops.length) })

/-- What a child leaves to its parent: what it has done, and the answers that are still to come. -/
def World.after (w w' : World) : World :=
  { w with deeds := w'.deeds, sys := w'.sys, statuses := w'.statuses, heap := w'.heap }

/-- The child has the variables of the process, and none of what it does to them is seen here. -/
def runChild (child : M Unit) : M Bool := fun w =>
  match child w with
  | .ok _ w' => .ok true (w.after w')
  | .error _ w' => .ok true (w.after w')

def fork (child : M Unit) : M Bool := do
  if ← answer then runChild child else pure false

/-! ## Identities -/

def setgroups (groups : List Nat) : M Bool := do
  if ← answer then
    modify fun w => { w with cred := { w.cred with groups := groups } }
    pure true
  else pure false

def setgid (gid : Nat) : M Bool := do
  if ← answer then
    modify fun w => { w with cred := { w.cred with gid := gid } }
    pure true
  else pure false

/-- There may be no memory for the groups, where no groups need none; and they may not be got after all, so
that the array has anything. -/
def saveGids (garbage : List Nat) : M Bool := do
  if ← answer then
    if ← answer then
      modify fun w => { w with saved_gids := some w.cred.groups }
      pure true
    else
      modify fun w => { w with saved_gids := some garbage }
      pure false
  else
    modify fun w => { w with saved_gids := if w.cred.groups = [] then some [] else none }
    pure false

def restoreGids (p : Passwd) : M Bool := do
  match (← get).saved_gids with
  | none => pure false
  | some gids => if ← setgroups gids then setgid p.pw_gid else pure false

def resetGids : M Bool := do
  if ← setgroups [] then setgid 0 else pure false

/-- `groups` has what `initgroups` sets. -/
def setGid (groups : List Nat) (gid : Nat) : M Bool := do
  if ← setgid gid then
    if ← setgroups groups then pure true
    else
      let _ ← setgid 0
      pure false
  else pure false

def setUid (uid : Nat) : M Bool := do
  if ← answer then
    modify fun w => { w with cred := { w.cred with uid := uid } }
    pure true
  else pure false

/-! ## Programs -/

/-- `wcFromWait`, with the macros of `sys/wait.h`: the low bits of a status are the signal and whether
there is a core, 128; the exit code is above. -/
def wcFromWait (w : Nat) : Nat :=
  let sig := if w % 128 ≠ 0 ∧ w % 128 ≠ 127 then w % 128 else 0
  let core := w / 128 % 2 * 128
  let code := if w % 128 = 0 then w / 256 % 256 else 0
  sig * 256 + core * 128 + code

/-- `wcCompose(0, 0, 127)` -/
def NOT_RUN : Nat := 127

/-- A shell script that has not been made executable; `program` is what the first line of a file may be
taken for. -/
def interpret (deed : List Text → StrArr → Deed) (program : Text → Option Text) (argv : List Text)
    (env : StrArr) : M Unit := do
  match program (argv.headD []) with
  | none => pure ()
  | some line =>
    match if line.take 2 = str "#!" then Args.parseArgs [] (line.drop 2) else some [str "/bin/sh"] with
    | none => exit
    | some newargv =>
      if ← answer then
        act (deed (newargv ++ argv) env)
        if ← answer then exit else pure ()
      else pure ()

/-- `execute`, which comes back if the program could not be started; `deed` is what it is for. -/
def execute (deed : List Text → StrArr → Deed) (program : Text → Option Text) (argv : List Text)
    (env : StrArr) : M Unit := do
  act (deed argv env)
  if ← answer then exit
  else
    -- `errno != ENOENT`
    if ← answer then interpret deed program argv env else pure ()

/-- `Wait4` -/
def Wait4 : M Nat := do
  let status ← modifyGet fun w => (w.statuses 0, { w with statuses := fun n => w.statuses (n + 1) })
  act (.exited status)
  pure (wcFromWait (status.getD 0))

def runAndWait (program : Text → Option Text) (args : List Text) (env : StrArr) : M Nat := do
  if ← fork (execute .script program args env) then
    let ret ← Wait4
    pure (wcFromWait ret)
  else pure NOT_RUN

/-- The words are those of `parseArgs`; a process that it leads beyond the end of the string ends. -/
def source (program : Text → Option Text) (env : StrArr) (file : Text) (arg : Option Text) : M Nat := do
  if file = [] then pure 0
  else
    match Args.parseArgs [] file with
    | none => exit
    | some args =>
      if ← answer then runAndWait program (args ++ arg.toList) env else pure NOT_RUN

end Kdm.Client
