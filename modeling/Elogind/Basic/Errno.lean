/-
  Elogind.Basic.Errno

  Return codes.  The daemon's functions return an `int` that is negative
  exactly when they failed; `Errno` is an error number, and `Errno.neg` the
  code a function returns for it.
-/

import Mathlib.Algebra.Order.Group.Nat

namespace Elogind

/-- An `errno` value: positive, so that its negation is an error code. -/
structure Errno where
  val : Nat
  pos : 0 < val
  deriving DecidableEq, Repr

namespace Errno

/-- The return code of a function that fails with this error. -/
def neg (e : Errno) : Int := -(e.val : Int)

theorem neg_lt_zero (e : Errno) : e.neg < 0 := by
  have h := e.pos
  unfold neg
  omega

def EPERM : Errno := ⟨1, by decide⟩
def ENOENT : Errno := ⟨2, by decide⟩
def ESRCH : Errno := ⟨3, by decide⟩
def EIO : Errno := ⟨5, by decide⟩
def ENXIO : Errno := ⟨6, by decide⟩
def EAGAIN : Errno := ⟨11, by decide⟩
def ENOMEM : Errno := ⟨12, by decide⟩
def EACCES : Errno := ⟨13, by decide⟩
def EBUSY : Errno := ⟨16, by decide⟩
def EEXIST : Errno := ⟨17, by decide⟩
def ENODEV : Errno := ⟨19, by decide⟩
def EINVAL : Errno := ⟨22, by decide⟩
def ENOMSG : Errno := ⟨42, by decide⟩
def EPROTO : Errno := ⟨71, by decide⟩
def EBADMSG : Errno := ⟨74, by decide⟩
def ENOTUNIQ : Errno := ⟨76, by decide⟩
def EOPNOTSUPP : Errno := ⟨95, by decide⟩
def ENETUNREACH : Errno := ⟨101, by decide⟩
def ECONNRESET : Errno := ⟨104, by decide⟩
def ENOBUFS : Errno := ⟨105, by decide⟩
def ENOTCONN : Errno := ⟨107, by decide⟩
def EALREADY : Errno := ⟨114, by decide⟩
def EINPROGRESS : Errno := ⟨115, by decide⟩
def ESTALE : Errno := ⟨116, by decide⟩

def EUCLEAN : Errno := ⟨117, by decide⟩

end Errno

/-- The outcome of a call into the system or into another library: a value, or
    an error number. -/
abbrev Result (α : Type) := Except Errno α

/-- The failure of a bus method: an error number, or a named error with its
    message. -/
inductive MethodError where
  | errno (e : Errno)
  | bus (name message : String)
  deriving DecidableEq, Repr

end Elogind
