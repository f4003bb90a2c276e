/-! Errors of the engine's operations. -/
namespace RustTS

/-- `VmError`. An I/O error is the text it displays. -/
inductive VmError
  | interrupted
  | cancelled
  | lockPoisoned
  | scriptNotFound (scriptId : String)
  | functionNotFound (scriptId functionName : String)
  | contractValidation (contractName direction details : String)
  | transpile (details : String)
  | resolve (details : String)
  | execution (details : String)
  | io (error : String)
  deriving DecidableEq, Repr

/-- The `Display` text of an error. -/
def VmError.toText : VmError → String
  | .interrupted => "javascript execution was interrupted by the host"
  | .cancelled => "deferred operation cancelled because its script was replaced or unloaded"
  | .lockPoisoned => "a lock was poisoned by a panic in a host handler"
  | .scriptNotFound id => "script `" ++ id ++ "` is not loaded"
  | .functionNotFound id name => "function `" ++ name ++ "` is not exported by script `" ++ id ++ "`"
  | .contractValidation name direction details =>
    "host contract `" ++ name ++ "` " ++ direction ++ " validation failed: " ++ details
  | .transpile details => "typescript transpilation failed: " ++ details
  | .resolve details => "module resolution failed: " ++ details
  | .execution details => "javascript execution failed: " ++ details
  | .io error => "filesystem error: " ++ error

/-- How an operation ends: with a value, with an error, or by re-raising the panic of a
host function. -/
inductive Outcome (α : Type)
  | ok (value : α)
  | err (error : VmError)
  | panicked
  deriving DecidableEq, Repr

end RustTS
