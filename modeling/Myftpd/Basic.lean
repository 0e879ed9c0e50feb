import Myftpd.Lib.CMem
import Mathlib.Algebra.Ring.Int.Defs
import Mathlib.Algebra.Ring.Nat

/-!
# Error numbers, and how a step of the server can end

A step of the server either goes on with a result or stops the process: by one of the exit calls
of the source (`ERR_EXIT`, `unix_error`), by a memory error (`crash`), or, where a loop is run on
fuel, because the fuel is spent (`spin`, the loop has not ended yet).
-/

namespace Myftpd

inductive Errno where
  | EINTR | EAGAIN | EBADF | ECONNRESET | ECONNABORTED | EMFILE | ENFILE | ENOBUFS | ENOMEM
  | ETIMEDOUT | EPIPE | ENOENT | EACCES
  deriving DecidableEq, Repr

/-- the exit calls that the server can reach after start-up, and the signal that nobody catches -/
inductive Site where
  | readline      -- `ERR_EXIT("readline")`
  | accept        -- `unix_error("accept error.\n")`
  | epoll         -- `unix_error("epoll failed")`
  | pasvListen    -- `ERR_EXIT` of `processDataRead`: no passive listener
  | tcpServer     -- `ERR_EXIT` of `tcp_server`
  | getsockname   -- `ERR_EXIT("getsockname")`
  | sigpipe       -- not a call: the signal of a write to a connection that the client has reset
  deriving DecidableEq, Repr

/-- memory errors -/
inductive Fault where
  | nullEdata     -- `pedat->fd_in` or `pedat->sess` is NULL
  | nullPath      -- `opendir(NULL)`
  | nullCrypt     -- `strcmp` on the NULL of `crypt`
  | freed         -- a session or node that has been freed
  | overlap       -- `strcpy` or `strncpy` on overlapping areas or past the buffers
  | bounds        -- an index outside `sessinfo` or `map_fd_toNode`
  | badFree       -- `free` of a pointer that does not come from `malloc`
  deriving DecidableEq, Repr

inductive Stop where
  | exit (at_ : Site)
  | crash (f : Fault)
  | spin
  deriving DecidableEq, Repr

abbrev Res (α : Type) := Except Stop α

theorem bind_ok {α β : Type} {x : Res α} {f : α → Res β} {b : β} :
    (x >>= f) = .ok b ↔ ∃ a, x = .ok a ∧ f a = .ok b := by
  cases x with
  | error e => exact ⟨nofun, nofun⟩
  | ok a =>
    refine ⟨fun h => ⟨a, rfl, h⟩, ?_⟩
    rintro ⟨a', h, h'⟩
    cases h
    exact h'

theorem ok_of_toOption {α : Type} {x : Res α} {a : α} (h : x.toOption = some a) : x = .ok a := by
  cases x with
  | error e => cases h
  | ok b => rw [Option.some.inj h]

/-! ## constants of common.h -/

def MAX_COMMAND_LINE : Nat := 1024
def MAX_COMMAND : Nat := 32
def MAX_ARG : Nat := 1024
def MAX_SESSIONS : Nat := 1200
def MAXEVENTNUM : Nat := 80
def TIMEOUTSEG : Int := 2

def CR : UInt8 := 13
def LF : UInt8 := 10
def SP : UInt8 := 32

/-! ## machine integers -/

/-- the value a signed `w`-bit integer holds after storing `z` -/
def wrapS (w : Nat) (z : Int) : Int := (z + 2^(w-1)) % 2^w - 2^(w-1)

/-- the value an unsigned 32-bit integer holds after storing `z` -/
def wrapU32 (z : Int) : Nat := (z % 2^32).toNat

theorem wrapS_of_lt {w : Nat} {z : Int} (hw : 0 < w) (h1 : -2^(w-1) ≤ z) (h2 : z < 2^(w-1)) :
    wrapS w z = z := by
  unfold wrapS
  have e : (2:Int)^w = 2 * 2^(w-1) := by
    obtain ⟨n, rfl⟩ : ∃ n, w = n + 1 := ⟨w - 1, by omega⟩
    rw [Nat.add_sub_cancel, Int.pow_succ, Int.mul_comm]
  rw [Int.emod_eq_of_lt (by omega) (by omega)]
  omega

end Myftpd
