/-
  Elogind.Basic.EnvFile

  The reader of environment files (env-file.c), with which the daemon reads
  its own state files back.

  `parse_env_file_internal` is a state machine over the bytes of the file.  It
  keeps the key and the value read so far, and where in them a trailing run of
  white space starts, and calls a function for each assignment it has read.
  Here the assignments are returned in their order.  Running out of memory is
  not modelled.
-/

import Elogind.Basic.Errno
import Elogind.Basic.Utf8

namespace Elogind

open Byte

/-- An assignment the parser has read; the value can be missing. -/
structure Assignment where
  key : Bytes
  value : Option Bytes
  deriving DecidableEq, Repr

inductive EnvState where
  | preKey
  | key
  | preValue
  | value
  | valueEscape
  | singleQuoteValue
  | doubleQuoteValue
  | doubleQuoteValueEscape
  | comment
  | commentEscape
  deriving DecidableEq, Repr

/-- The local variables of `parse_env_file_internal`; `none` stands for
    `SIZE_MAX` and for the null pointer. -/
structure EnvParser where
  state : EnvState
  key : Bytes
  value : Option Bytes
  lastKeyWhitespace : Option Nat
  lastValueWhitespace : Option Nat
  deriving DecidableEq, Repr

namespace EnvParser

def init : EnvParser where
  state := .preKey
  key := []
  value := none
  lastKeyWhitespace := none
  lastValueWhitespace := none

/-- `value[n_value++] = c` -/
def appendValue (p : EnvParser) (c : UInt8) : EnvParser :=
  { p with value := some (p.value.getD [] ++ [c]) }

/-- Cut off a trailing run of white space. -/
def chomp (last : Option Nat) (s : Bytes) : Bytes :=
  match last with
  | none => s
  | some n => s.take n

/-- The assignment that is complete now.  Only in the state `VALUE` trailing
    white space is cut off the value. -/
def assignment (p : EnvParser) : Assignment where
  key := chomp p.lastKeyWhitespace p.key
  value := if p.state = .value then p.value.map (chomp p.lastValueWhitespace) else p.value

/-- The parser after an assignment has been handed on. -/
def reset (p : EnvParser) : EnvParser := { p with state := .preKey, key := [], value := none }

/-- One round of the loop: the state after the byte `c`, and the assignment it
    completes. -/
def step (p : EnvParser) (c : UInt8) : EnvParser × List Assignment :=
  match p.state with
  | .preKey =>
    if isComment c then ({ p with state := .comment }, [])
    else if isWhitespace c then (p, [])
    else ({ p with state := .key, lastKeyWhitespace := none, key := p.key ++ [c] }, [])
  | .key =>
    if isNewline c then ({ p with state := .preKey, key := [] }, [])
    else if c = equals then ({ p with state := .preValue, lastValueWhitespace := none }, [])
    else
      let last :=
        if !isWhitespace c then none
        else if p.lastKeyWhitespace.isNone then some p.key.length
        else p.lastKeyWhitespace
      ({ p with lastKeyWhitespace := last, key := p.key ++ [c] }, [])
  | .preValue =>
    if isNewline c then (p.reset, [p.assignment])
    else if c = singleQuote then ({ p with state := .singleQuoteValue }, [])
    else if c = doubleQuote then ({ p with state := .doubleQuoteValue }, [])
    else if c = backslash then ({ p with state := .valueEscape }, [])
    else if isWhitespace c then (p, [])
    else ({ p with state := .value }.appendValue c, [])
  | .value =>
    if isNewline c then (p.reset, [p.assignment])
    else if c = backslash then
      ({ p with state := .valueEscape, lastValueWhitespace := none }, [])
    else
      let last :=
        if !isWhitespace c then none
        else if p.lastValueWhitespace.isNone then some (p.value.getD []).length
        else p.lastValueWhitespace
      ({ p with lastValueWhitespace := last }.appendValue c, [])
  | .valueEscape =>
    if isNewline c then ({ p with state := .value }, [])
    else ({ p with state := .value }.appendValue c, [])
  | .singleQuoteValue =>
    if c = singleQuote then ({ p with state := .preValue }, [])
    else (p.appendValue c, [])
  | .doubleQuoteValue =>
    if c = doubleQuote then ({ p with state := .preValue }, [])
    else if c = backslash then ({ p with state := .doubleQuoteValueEscape }, [])
    else (p.appendValue c, [])
  | .doubleQuoteValueEscape =>
    let p := { p with state := .doubleQuoteValue }
    if needsShellEscape c then (p.appendValue c, [])
    else if c ≠ newline then ((p.appendValue backslash).appendValue c, [])
    else (p, [])
  | .comment =>
    if c = backslash then ({ p with state := .commentEscape }, [])
    else if isNewline c then ({ p with state := .preKey }, [])
    else (p, [])
  | .commentEscape =>
    if isNewline c then ({ p with state := .preKey }, [])
    else ({ p with state := .comment }, [])

/-- The loop: the state after the text, and the assignments it completes. -/
def run (p : EnvParser) : Bytes → EnvParser × List Assignment
  | [] => (p, [])
  | c :: cs =>
    let (p₁, as) := p.step c
    let (p₂, bs) := p₁.run cs
    (p₂, as ++ bs)

/-- The end of the file completes an assignment whose key has been read. -/
def finish (p : EnvParser) : List Assignment :=
  match p.state with
  | .preValue | .value | .valueEscape | .singleQuoteValue | .doubleQuoteValue
  | .doubleQuoteValueEscape => [p.assignment]
  | _ => []

end EnvParser

/-- `parse_env_file_internal`: the assignments of a file. -/
def parseEnvFileInternal (text : Bytes) : List Assignment :=
  let (p, as) := EnvParser.init.run text
  as ++ p.finish

/-- `check_utf8ness_and_warn` -/
def Assignment.utf8IsValid (a : Assignment) : Bool :=
  Elogind.utf8IsValid a.key && a.value.all Elogind.utf8IsValid

/-- `parse_env_file`: the assignments, unless one of them is not UTF-8. -/
def parseEnvFile (text : Bytes) : Result (List Assignment) :=
  let as := parseEnvFileInternal text
  if as.all Assignment.utf8IsValid then .ok as else .error .EINVAL

/-- What `parse_env_file` leaves in the variable for the key `k`: each
    assignment replaces what an earlier one stored. -/
def lookup (k : Bytes) (as : List Assignment) : Option Bytes :=
  as.foldl (fun v a => if a.key = k then a.value else v) none

/-! ## Composition -/

namespace EnvParser

theorem run_append (p : EnvParser) (s t : Bytes) :
    p.run (s ++ t) = (((p.run s).1.run t).1, (p.run s).2 ++ ((p.run s).1.run t).2) := by
  induction s generalizing p with
  | nil => simp [run]
  | cons c s ih => simp [run, ih]

theorem run_singleton (p : EnvParser) (c : UInt8) : p.run [c] = p.step c := by
  simp [run]

end EnvParser

theorem lookup_foldl (k : Bytes) (as : List Assignment) (v : Option Bytes) :
    as.foldl (fun v a => if a.key = k then a.value else v) v =
      if k ∈ as.map Assignment.key then lookup k as else v := by
  unfold lookup
  induction as generalizing v with
  | nil => simp
  | cons a as ih =>
      have hv := ih (if a.key = k then a.value else v)
      have hnone := ih (if a.key = k then a.value else none)
      rw [List.foldl_cons, List.foldl_cons, hv, hnone]
      by_cases ha : a.key = k
      · by_cases hk : k ∈ as.map Assignment.key <;> simp [hk, ha]
      · by_cases hk : k ∈ as.map Assignment.key <;> simp [hk, ha, Ne.symm ha]

/-- Later assignments win. -/
theorem lookup_append (k : Bytes) (as bs : List Assignment) :
    lookup k (as ++ bs) = if k ∈ bs.map Assignment.key then lookup k bs else lookup k as := by
  have hsplit : lookup k (as ++ bs) =
      bs.foldl (fun v a => if a.key = k then a.value else v) (lookup k as) := by
    rw [lookup, List.foldl_append]
    rfl
  rw [hsplit, lookup_foldl]

theorem lookup_eq_none_of_not_mem {k : Bytes} {as : List Assignment}
    (h : k ∉ as.map Assignment.key) : lookup k as = none := by
  unfold lookup
  rw [lookup_foldl, if_neg h]

end Elogind
