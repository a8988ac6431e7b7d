import Pintos.Lib.Lifetime
import Mathlib

/-!
# Processes: `exec`, `wait` and `exit`

`userprog/process.c` gives every user process a `struct process` (process.h:13-27) in a
page of its own, allocated by its parent in `process_execute` and linked into the
parent's `children` list. The page is shared by two threads: the parent reads it in
`process_wait`, `process_get_child` and `process_remove_child`, the child writes it in
`start_process`, `syscall_exit` and `process_exit`. Whoever is last frees it:
`process_remove_child` when the child has exited, the child's `process_exit` when its
parent has already dropped it.

The model is a machine of threads that run one statement at a time, in any order: a
schedule is a list of thread numbers, and `step` runs one statement of the named thread.
Each statement that reads or writes a `struct process` leaves an `Event.access` in the
trace, each `palloc_free_page` of one leaves `Event.free`.

* `processExecute` (process.c:35-83) allocates the page, sets `parent`, `is_loaded`,
  `is_exited`, the two semaphores and `exit_status = -1`, and creates the child thread
  (`thread_create`); then `sema_down (&pcb->load_sema)` and, if `pcb->pid != PID_ERROR`,
  `list_push_back` onto the children.
* `start_process` (process.c:87-132) sets `is_loaded` and `pid` from what `load` returned,
  `sema_up (&pcb->load_sema)`, and runs the user program or calls `syscall_exit (-1)`.
* `syscall_exec` (syscall.c:271-288) calls `process_get_child (pid)` and returns
  `PID_ERROR` unless the child is there and `is_loaded`.
* `process_wait` (process.c:140-156): `process_get_child`, `sema_down (&child->exit_sema)`,
  read `exit_status`, `process_remove_child`.
* `process_remove_child` (process.c:250-260): `list_remove (&child->childelem)`,
  `child->parent = NULL`, and `if (child->is_exited) palloc_free_page (child)`.
* `syscall_exit` (syscall.c:261-268) writes `exit_status`, prints `exit(status)` and calls
  `thread_exit`, which calls `process_exit` (process.c:159-214): `is_exited = true`, the loop
  `for (e = list_begin (children); e != list_end (children); e = list_next (e))
  process_remove_child (...)`, then `if (pcb && !pcb->parent) palloc_free_page (pcb)` and
  `sema_up (&pcb->exit_sema)`.

Freed memory reads as the kernel leaves it. Pintos is built without `NDEBUG`, and
`palloc_free_multiple` (palloc.c:134-136) fills a freed page with `0xcc`: a freed
`struct process` has every pointer `0xcccccccc`, every `int` `-858993460` and every `bool`
true. So `list_next` on a freed `childelem` returns the pointer `0xcccccccc`
(`Cursor.garbage`), the next `list_remove` on it faults in the kernel, and `sema_up` on a
freed semaphore finds a non-empty waiter list and faults the same way. A kernel page fault
on that kernel address goes to `syscall_exit (-1)` (exception.c:157-162). A second
`palloc_free_page` of a page fails `ASSERT (bitmap_all (...))` (palloc.c:138): the kernel
panics and nothing runs any more. The model never hands a freed page out again, and a
write to a freed page leaves it reading as `0xcc`: no path here reads back a field that it
wrote after the free.

Thread numbers are tids and pids. Thread 0 is the kernel's main thread running
`run_task` (init.c:293-304), `process_wait (process_execute (task))`; it has no
`struct process` (`init_thread` sets `pcb` to `NULL`) and never exits. Allocation failure
in `palloc_get_page` and `thread_create` is not modelled.
-/

set_option autoImplicit false

namespace Pintos.Process

/-- `pid_t` and `tid_t`. -/
abbrev Pid := Int

/-- `PID_ERROR`, and `TID_ERROR`: both `-1`. -/
def PID_ERROR : Pid := -1

/-- An `int` field of a freed page: `0xcccccccc` read as `int`. -/
def freedInt : Int := 0xcccccccc - 2 ^ 32

/-- An `unsigned` field of a freed page. -/
def freedWord : Nat := 0xcccccccc

/-- The system calls of a user program, in order. `exec` names a program that loads or
fails to load, and what the child then runs. -/
inductive Op where
  | exec (loads : Bool) (prog : List Op)
  | wait (pid : Pid)
  | exit (status : Int)

/-- The fields of `struct process` that the code reads or writes. -/
inductive Field where
  | fileName | pid | parent | childelem | isLoaded | loadSema | isExited | exitSema | exitStatus
  deriving DecidableEq, Repr

/-- A live `struct process`. `parent` is the parent's tid, `none` for `NULL`; a semaphore is
its value. -/
structure Pcb where
  pid : Pid
  parent : Option Nat
  isLoaded : Bool
  loadSema : Nat
  isExited : Bool
  exitSema : Nat
  exitStatus : Int
  deriving DecidableEq, Repr

/-- A page that holds a `struct process`: live, or returned to the page allocator. -/
inductive Page where
  | live (p : Pcb)
  | freed
  deriving DecidableEq, Repr

namespace Page

/-- `pcb->pid`. -/
def pid : Page → Pid
  | live p => p.pid
  | freed => freedInt

/-- `!pcb->parent`. -/
def parentIsNull : Page → Bool
  | live p => p.parent.isNone
  | freed => false

/-- `pcb->is_loaded`. -/
def isLoaded : Page → Bool
  | live p => p.isLoaded
  | freed => true

/-- `pcb->is_exited`. -/
def isExited : Page → Bool
  | live p => p.isExited
  | freed => true

/-- `pcb->exit_status`. -/
def exitStatus : Page → Int
  | live p => p.exitStatus
  | freed => freedInt

/-- The value of `load_sema`. -/
def loadSema : Page → Nat
  | live p => p.loadSema
  | freed => freedWord

/-- The value of `exit_sema`. -/
def exitSema : Page → Nat
  | live p => p.exitSema
  | freed => freedWord

/-- A write to the fields of the page. -/
def modify (f : Pcb → Pcb) : Page → Page
  | live p => live (f p)
  | freed => freed

end Page

/-- The element `e` of `process_exit`'s loop over the children: a child's `childelem`,
the pointer read from a freed one, or `list_end`. -/
inductive Cursor where
  | node (pg : Nat)
  | garbage
  | tail
  deriving DecidableEq, Repr

/-- `list_begin` of a list of pages, or what follows an element. -/
def Cursor.first : List Nat → Cursor
  | [] => .tail
  | pg :: _ => .node pg

/-- `childelem.next` of the page `pg` in the list `l`. -/
def successor (l : List Nat) (pg : Nat) : Cursor :=
  Cursor.first ((l.dropWhile (· ≠ pg)).drop 1)

/-- Where `process_remove_child` returns to. -/
inductive Caller where
  /-- `process_wait`, which then returns the status it read. -/
  | wait (status : Int)
  /-- The loop of `process_exit`. -/
  | exitLoop
  deriving DecidableEq, Repr

/-- The next statement of a thread. -/
inductive Pc where
  /-- In user mode: the next system call of its program. -/
  | user
  /-- `process_execute`: allocate and fill the child's page and create the child;
  `sys` for `syscall_exec`, not for `run_task`. -/
  | execCreate (loads : Bool) (prog : List Op) (sys : Bool)
  /-- `sema_down (&pcb->load_sema)`. -/
  | execDown (pg tid : Nat) (sys : Bool)
  /-- `if (pcb->pid != PID_ERROR) list_push_back (thread_get_children (), &pcb->childelem)`. -/
  | execPush (pg tid : Nat) (sys : Bool)
  /-- `syscall_exec`: `child = process_get_child (pid)`, then the `is_loaded` test. -/
  | execGet (tid : Nat)
  /-- `process_wait`: `child = process_get_child (child_tid)`. -/
  | waitGet (pid : Pid)
  /-- `sema_down (&child->exit_sema)`. -/
  | waitDown (pg : Nat)
  /-- `exit_status = child->exit_status`. -/
  | waitRead (pg : Nat)
  /-- `list_remove (&child->childelem)`. -/
  | rmList (pg : Nat) (caller : Caller)
  /-- `child->parent = NULL`; `succ` is the removed element's `next`. -/
  | rmParent (pg : Nat) (caller : Caller) (succ : Cursor)
  /-- `if (child->is_exited) palloc_free_page (child)`. -/
  | rmFree (pg : Nat) (caller : Caller) (succ : Cursor)
  /-- `e = list_next (e)`. -/
  | exitNext (pg : Nat) (succ : Cursor)
  /-- `start_process`: `pcb->is_loaded = load (...)` and `pcb->pid`. -/
  | startLoad (loads : Bool)
  /-- `sema_up (&pcb->load_sema)`. -/
  | startUp (success : Bool)
  /-- `if (!success) syscall_exit (-1)`. -/
  | startCheck (success : Bool)
  /-- `syscall_exit (status)`: `pcb->exit_status = status`. -/
  | exitStatus (status : Int)
  /-- `process_exit`: `pcb->is_exited = true`. -/
  | exitMark
  /-- The loop test `e != list_end (children)`. -/
  | exitTest (e : Cursor)
  /-- `if (pcb && !pcb->parent) palloc_free_page (pcb)`. -/
  | exitCheck
  /-- `sema_up (&pcb->exit_sema)`. -/
  | exitUp
  /-- `THREAD_DYING`: the thread never runs again. -/
  | dying

/-- A thread: its `struct process` (`thread_get_pcb`), its `children` list front first,
the rest of its user program, and its next statement. -/
structure Thread where
  pcb : Option Nat
  children : List Nat
  prog : List Op
  pc : Pc

/-- What the trace records. -/
inductive Event where
  /-- `palloc_get_page` of a `struct process` by thread `t`. -/
  | alloc (t pg : Nat)
  /-- A read or write of field `f` of the page `pg` by thread `t`. -/
  | access (t pg : Nat) (f : Field)
  /-- `palloc_free_page (pg)` by thread `t`. -/
  | free (t pg : Nat)
  /-- `syscall_exec` returns `pid` to thread `t`. -/
  | execRet (t : Nat) (pid : Pid)
  /-- `process_wait` returns `status` to thread `t`. -/
  | waitRet (t : Nat) (status : Int)
  /-- `syscall_exit (status)` in thread `t`: it prints `exit(status)`. -/
  | exit (t : Nat) (status : Int)
  /-- A kernel page fault in thread `t` on the pointer `0xcccccccc`. -/
  | fault (t : Nat)
  /-- A failed `ASSERT` in thread `t`: the kernel panics. -/
  | panic (t : Nat)
  deriving DecidableEq, Repr

/-- What an event does to a page, for `Lifetime`. -/
def Event.use : Event → Lifetime.Use Nat
  | .alloc _ pg => .alloc pg
  | .access _ pg _ => .access pg
  | .free _ pg => .free pg
  | _ => .other

/-- The pages, indexed by their number, the threads, indexed by tid, and the trace. -/
structure World where
  pages : List Page
  threads : List Thread
  trace : List Event
  panicked : Bool

namespace World

/-- The page `pg`. -/
def page (w : World) (pg : Nat) : Page :=
  w.pages.getD pg .freed

def setPage (w : World) (pg : Nat) (p : Page) : World :=
  { w with pages := w.pages.set pg p }

def modifyPage (w : World) (pg : Nat) (f : Pcb → Pcb) : World :=
  w.setPage pg ((w.page pg).modify f)

def setThread (w : World) (t : Nat) (th : Thread) : World :=
  { w with threads := w.threads.set t th }

def emit (w : World) (e : Event) : World :=
  { w with trace := w.trace ++ [e] }

/-- Thread `t` reads or writes field `f` of the page `pg`. -/
def access (w : World) (t pg : Nat) (f : Field) : World :=
  w.emit (.access t pg f)

@[simp] theorem page_emit (w : World) (e : Event) (pg : Nat) : (w.emit e).page pg = w.page pg :=
  rfl

@[simp] theorem threads_emit (w : World) (e : Event) : (w.emit e).threads = w.threads := rfl

@[simp] theorem pages_emit (w : World) (e : Event) : (w.emit e).pages = w.pages := rfl

@[simp] theorem trace_emit (w : World) (e : Event) : (w.emit e).trace = w.trace ++ [e] := rfl

@[simp] theorem panicked_emit (w : World) (e : Event) : (w.emit e).panicked = w.panicked := rfl

@[simp] theorem access_eq (w : World) (t pg : Nat) (f : Field) :
    w.access t pg f = w.emit (.access t pg f) :=
  rfl

@[simp] theorem page_setThread (w : World) (t : Nat) (th : Thread) (pg : Nat) :
    (w.setThread t th).page pg = w.page pg :=
  rfl

@[simp] theorem threads_setThread (w : World) (t : Nat) (th : Thread) :
    (w.setThread t th).threads = w.threads.set t th :=
  rfl

@[simp] theorem pages_setThread (w : World) (t : Nat) (th : Thread) :
    (w.setThread t th).pages = w.pages :=
  rfl

@[simp] theorem length_pages_setPage (w : World) (pg : Nat) (p : Page) :
    (w.setPage pg p).pages.length = w.pages.length :=
  List.length_set

@[simp] theorem trace_setThread (w : World) (t : Nat) (th : Thread) :
    (w.setThread t th).trace = w.trace :=
  rfl

@[simp] theorem panicked_setThread (w : World) (t : Nat) (th : Thread) :
    (w.setThread t th).panicked = w.panicked :=
  rfl

@[simp] theorem threads_setPage (w : World) (pg : Nat) (p : Page) :
    (w.setPage pg p).threads = w.threads :=
  rfl

@[simp] theorem trace_setPage (w : World) (pg : Nat) (p : Page) :
    (w.setPage pg p).trace = w.trace :=
  rfl

@[simp] theorem panicked_setPage (w : World) (pg : Nat) (p : Page) :
    (w.setPage pg p).panicked = w.panicked :=
  rfl

theorem lt_of_page_eq_live {w : World} {pg : Nat} {p : Pcb} (h : w.page pg = .live p) :
    pg < w.pages.length := by
  by_contra hge
  rw [page, List.getD_eq_getElem?_getD, List.getElem?_eq_none (by omega)] at h
  cases h

theorem page_setPage_self {w : World} {pg : Nat} (h : pg < w.pages.length) (p : Page) :
    (w.setPage pg p).page pg = p := by
  simp [page, setPage, h]

theorem page_setPage_ne (w : World) {pg pg' : Nat} (h : pg ≠ pg') (p : Page) :
    (w.setPage pg p).page pg' = w.page pg' := by
  simp [page, setPage, List.getD_eq_getElem?_getD, List.getElem?_set_ne h]

end World

/-- `palloc_free_page (pg)` by thread `t`: a page that is already free fails the
allocator's assertion. -/
def pallocFreePage (w : World) (t pg : Nat) : World :=
  match w.page pg with
  | .live _ => (w.setPage pg .freed).emit (.free t pg)
  | .freed => { (w.emit (.free t pg)).emit (.panic t) with panicked := true }

/-- `process_get_child (pid)` by thread `t`: reads `pid` of each child from the front
until one matches. -/
def processGetChild (w : World) (t : Nat) : List Nat → Pid → World × Option Nat
  | [], _ => (w, none)
  | pg :: rest, pid =>
      if (w.page pg).pid = pid then (w.access t pg .pid, some pg)
      else processGetChild (w.access t pg .pid) t rest pid

/-- `process_execute` in thread `t`: the child's page, filled in, and the child thread,
which will run `prog` if it loads. `pid` is set by `start_process` before anything reads
it. -/
def processExecute (w : World) (t : Nat) (th : Thread) (loads : Bool) (prog : List Op)
    (sys : Bool) : World :=
  let pg := w.pages.length
  let tid := w.threads.length
  let pcb : Pcb :=
    { pid := PID_ERROR, parent := some t, isLoaded := false, loadSema := 0,
      isExited := false, exitSema := 0, exitStatus := -1 }
  let child : Thread := { pcb := some pg, children := [], prog := prog, pc := .startLoad loads }
  let w := { w with pages := w.pages ++ [Page.live pcb], threads := w.threads ++ [child] }
  (w.emit (.alloc t pg)).setThread t { th with pc := .execDown pg tid sys }

/-- `sema_up` on a semaphore of the page `pg` by thread `t`, which goes on at `next`. On a
freed page the waiter list is `0xcc`, and popping from it faults. -/
def semaUp (w : World) (t : Nat) (th : Thread) (pg : Nat) (f : Field) (up : Pcb → Pcb)
    (next : Pc) : World :=
  match w.page pg with
  | .live p => ((w.access t pg f).setPage pg (.live (up p))).setThread t { th with pc := next }
  | .freed => ((w.access t pg f).emit (.fault t)).setThread t { th with pc := .exitStatus (-1) }

/-- Thread `t`, which is `th`, writes field `f` of its own page. -/
def ownWrite (w : World) (t : Nat) (th : Thread) (f : Field) (g : Pcb → Pcb) : World :=
  match th.pcb with
  | some pg => (w.access t pg f).modifyPage pg g
  | none => w

/-- One statement of thread `t`, which is `th`. A thread that is blocked in `sema_down`,
has died, or runs user code that makes no more system calls does not move. -/
def stepThread (w : World) (t : Nat) (th : Thread) : World :=
  match th.pc with
  | .user =>
      match th.prog with
      | [] => w
      | .exec loads prog :: rest =>
          w.setThread t { th with prog := rest, pc := .execCreate loads prog true }
      | .wait pid :: rest => w.setThread t { th with prog := rest, pc := .waitGet pid }
      | .exit status :: _ => w.setThread t { th with pc := .exitStatus status }
  | .execCreate loads prog sys => processExecute w t th loads prog sys
  | .execDown pg tid sys =>
      if (w.page pg).loadSema = 0 then w
      else ((w.access t pg .loadSema).modifyPage pg fun p => { p with loadSema := p.loadSema - 1 })
        |>.setThread t { th with pc := .execPush pg tid sys }
  | .execPush pg tid sys =>
      let w := w.access t pg .pid
      let th := if (w.page pg).pid ≠ PID_ERROR then { th with children := th.children ++ [pg] }
        else th
      let w := if (w.page pg).pid ≠ PID_ERROR then w.access t pg .childelem else w
      -- `syscall_exec` looks the child up; `run_task` waits for it
      w.setThread t { th with pc := if sys then .execGet tid else .waitGet tid }
  | .execGet tid =>
      match processGetChild w t th.children tid with
      | (w, none) => (w.emit (.execRet t PID_ERROR)).setThread t { th with pc := .user }
      | (w, some pg) =>
          let ret := if (w.page pg).isLoaded then (tid : Pid) else PID_ERROR
          ((w.access t pg .isLoaded).emit (.execRet t ret)).setThread t { th with pc := .user }
  | .waitGet pid =>
      match processGetChild w t th.children pid with
      | (w, none) => (w.emit (.waitRet t (-1))).setThread t { th with pc := .user }
      | (w, some pg) => w.setThread t { th with pc := .waitDown pg }
  | .waitDown pg =>
      if (w.page pg).exitSema = 0 then w
      else ((w.access t pg .exitSema).modifyPage pg fun p => { p with exitSema := p.exitSema - 1 })
        |>.setThread t { th with pc := .waitRead pg }
  | .waitRead pg =>
      (w.access t pg .exitStatus).setThread t
        { th with pc := .rmList pg (.wait (w.page pg).exitStatus) }
  | .rmList pg caller =>
      (w.access t pg .childelem).setThread t
        { th with children := th.children.erase pg,
                  pc := .rmParent pg caller (successor th.children pg) }
  | .rmParent pg caller succ =>
      ((w.access t pg .parent).modifyPage pg fun p => { p with parent := none }).setThread t
        { th with pc := .rmFree pg caller succ }
  | .rmFree pg caller succ =>
      let w := w.access t pg .isExited
      let w := if (w.page pg).isExited then pallocFreePage w t pg else w
      match caller with
      | .wait status => (w.emit (.waitRet t status)).setThread t { th with pc := .user }
      | .exitLoop => w.setThread t { th with pc := .exitNext pg succ }
  | .exitNext pg succ =>
      let next : Cursor := match w.page pg with
        | .live _ => succ
        | .freed => .garbage
      (w.access t pg .childelem).setThread t { th with pc := .exitTest next }
  | .startLoad loads =>
      let w := match th.pcb with
        | some pg => ((w.access t pg .fileName).access t pg .isLoaded).access t pg .pid
        | none => w
      let w := match th.pcb with
        | some pg => w.modifyPage pg fun p =>
            { p with isLoaded := loads, pid := if loads then (t : Pid) else PID_ERROR }
        | none => w
      w.setThread t { th with pc := .startUp loads }
  | .startUp success =>
      match th.pcb with
      | some pg => semaUp w t th pg .loadSema (fun p => { p with loadSema := p.loadSema + 1 })
          (.startCheck success)
      | none => w.setThread t { th with pc := .startCheck success }
  | .startCheck success =>
      w.setThread t { th with pc := if success then .user else .exitStatus (-1) }
  | .exitStatus status =>
      ((ownWrite w t th .exitStatus fun p => { p with exitStatus := status }).emit
        (.exit t status)).setThread t { th with pc := .exitMark }
  | .exitMark =>
      (ownWrite w t th .isExited fun p => { p with isExited := true }).setThread t
        { th with pc := .exitTest (Cursor.first th.children) }
  | .exitTest e =>
      match e with
      | .tail => w.setThread t { th with pc := .exitCheck }
      | .node pg => w.setThread t { th with pc := .rmList pg .exitLoop }
      -- `process_remove_child` on the pointer `0xcccccccc`: `list_remove` faults
      | .garbage => (w.emit (.fault t)).setThread t { th with pc := .exitStatus (-1) }
  | .exitCheck =>
      match th.pcb with
      | some pg =>
          let w := w.access t pg .parent
          let w := if (w.page pg).parentIsNull then pallocFreePage w t pg else w
          w.setThread t { th with pc := .exitUp }
      | none => w.setThread t { th with pc := .exitUp }
  | .exitUp =>
      match th.pcb with
      | some pg => semaUp w t th pg .exitSema (fun p => { p with exitSema := p.exitSema + 1 }) .dying
      | none => w.setThread t { th with pc := .dying }
  | .dying => w

/-- One statement of thread `t`; nothing runs after a panic. -/
def step (w : World) (t : Nat) : World :=
  if w.panicked then w
  else match w.threads[t]? with
    | some th => stepThread w t th
    | none => w

/-- The statements of a schedule, in order. -/
def run (w : World) (sched : List Nat) : World :=
  sched.foldl step w

@[simp] theorem run_nil (w : World) : run w [] = w := rfl

@[simp] theorem run_cons (w : World) (t : Nat) (sched : List Nat) :
    run w (t :: sched) = run (step w t) sched :=
  rfl

theorem step_of_thread {w : World} {t : Nat} {th : Thread} (hrun : w.panicked = false)
    (ht : w.threads[t]? = some th) : step w t = stepThread w t th := by
  simp [step, hrun, ht]

/-- Boot: the main thread is about to run `run_task` on a program that loads or not. -/
def boot (loads : Bool) (prog : List Op) : World :=
  { pages := [], trace := [], panicked := false,
    threads := [{ pcb := none, children := [], prog := [], pc := .execCreate loads prog false }] }

end Pintos.Process
