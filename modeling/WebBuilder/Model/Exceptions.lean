/-
  WebBuilder.Model.Exceptions — what the service can raise.

  One constructor for each exception class that a handler of the service
  tells apart; the text is kept where the source builds one.
-/
import Mathlib.Tactic

namespace WebBuilder

/-- Which `asyncio.timeout` block a deadline belongs to. -/
inductive Scope where
  /-- A block around one provider request. -/
  | request
  /-- The block around a run, a preview opening or a cleanup. -/
  | operation
  /-- Housekeeping on the sandbox of one project.  It has no deadline. -/
  | project (chatId : Nat)
  deriving DecidableEq

inductive Exc where
  /-- `asyncio.CancelledError`, after `task.cancel()`. -/
  | cancelled
  /-- `asyncio.CancelledError`, thrown in by an expired `asyncio.timeout`. -/
  | deadline (scope : Scope)
  /-- `TimeoutError`. -/
  | timeout
  /-- Anything the database driver raises. -/
  | database
  | value (message : String)
  | key (name : String)
  | http (status : Nat) (detail : String)
  | budgetLimit (message : String)
  | storage (message : String)
  /-- `e2b.NotFoundException`. -/
  | notFound
  /-- The other four ways E2B rejects a request outright: authentication,
  invalid argument, rate limit, service busy. -/
  | rejected
  /-- Any other `e2b.SandboxException`. -/
  | sandbox
  | commandState (message : String)
  | fileWrite (message : String)
  | runLimit (message : String)
  | verification (message : String)
  | sandboxSetup (message : String)
  | context (message : String)
  | preview (message : String)
  /-- Any other `Exception`. -/
  | other
  deriving DecidableEq

namespace Exc

/-- Whether `except Exception` catches it: `CancelledError` derives from
`BaseException`. -/
def isException : Exc → Bool
  | cancelled | deadline _ => false
  | _ => true

/-- `str(exc)`, where a handler uses it. -/
def text : Exc → String
  | value m | key m | budgetLimit m | storage m | commandState m | fileWrite m
  | runLimit m | verification m | sandboxSetup m | context m | preview m => m
  | _ => ""

end Exc

end WebBuilder
