import Mathlib.Data.Nat.Notation

/-!
# Exceptions — classes, instances and `isinstance`

An exception object carries its class, the class carries the names of its method resolution order.
Callers bring classes of their own (`ClassName.user`), so the hierarchy stays open.
-/

namespace ResilienceKit

/-- The exception classes the kit names, and those of its callers. -/
inductive ClassName
  | BaseException | Exception | CancelledError
  | ValueError | TypeError | LookupError | KeyError | AttributeError | AssertionError | RuntimeError
  | RecursionError
  | ArithmeticError | OverflowError | QueueFull
  | RedisError | ResponseError | NoScriptError
  | ResilienceKitError | ServiceUnavailableError | TransientError
  | ExternalTimeoutError | ExternalServiceError | ValidationError | RateLimitError | DecryptionError
  | RepositoryError | EncryptionConfigError
  | UnicodeError | UnicodeEncodeError | UnicodeDecodeError
  | InvalidToken
  | CircuitBreakerError
  | HTTPError | HTTPStatusError | RequestError | TransportError | TimeoutException
  | user (n : ℕ)
  deriving DecidableEq, Repr

/-- A class with the names that follow its own in its method resolution order. -/
structure PyClass where
  name : ClassName
  bases : List ClassName
  deriving DecidableEq, Repr

namespace PyClass

def mro (c : PyClass) : List ClassName := c.name :: c.bases

def issubclass (d c : PyClass) : Bool := c.name ∈ d.mro

def exception : PyClass := ⟨.Exception, [.BaseException]⟩
def cancelledError : PyClass := ⟨.CancelledError, [.BaseException]⟩
def valueError : PyClass := ⟨.ValueError, [.Exception, .BaseException]⟩
def typeError : PyClass := ⟨.TypeError, [.Exception, .BaseException]⟩
def keyError : PyClass := ⟨.KeyError, [.LookupError, .Exception, .BaseException]⟩
def attributeError : PyClass := ⟨.AttributeError, [.Exception, .BaseException]⟩
def assertionError : PyClass := ⟨.AssertionError, [.Exception, .BaseException]⟩
def overflowError : PyClass := ⟨.OverflowError, [.ArithmeticError, .Exception, .BaseException]⟩
def runtimeError : PyClass := ⟨.RuntimeError, [.Exception, .BaseException]⟩
def recursionError : PyClass := ⟨.RecursionError, [.RuntimeError, .Exception, .BaseException]⟩
def queueFull : PyClass := ⟨.QueueFull, [.Exception, .BaseException]⟩
def redisError : PyClass := ⟨.RedisError, [.Exception, .BaseException]⟩
def responseError : PyClass := ⟨.ResponseError, [.RedisError, .Exception, .BaseException]⟩
def noScriptError : PyClass := ⟨.NoScriptError, [.ResponseError, .RedisError, .Exception, .BaseException]⟩
def transientError : PyClass := ⟨.TransientError, [.ResilienceKitError, .Exception, .BaseException]⟩
def serviceUnavailableError : PyClass :=
  ⟨.ServiceUnavailableError, [.ResilienceKitError, .Exception, .BaseException]⟩

def externalTimeoutError : PyClass :=
  ⟨.ExternalTimeoutError, [.TransientError, .ResilienceKitError, .Exception, .BaseException]⟩
def resilienceKitError : PyClass := ⟨.ResilienceKitError, [.Exception, .BaseException]⟩
def validationError : PyClass := ⟨.ValidationError, [.ResilienceKitError, .Exception, .BaseException]⟩
def rateLimitError : PyClass := ⟨.RateLimitError, [.ResilienceKitError, .Exception, .BaseException]⟩
def decryptionError : PyClass := ⟨.DecryptionError, [.ResilienceKitError, .Exception, .BaseException]⟩
def repositoryError : PyClass := ⟨.RepositoryError, [.ResilienceKitError, .Exception, .BaseException]⟩
def encryptionConfigError : PyClass :=
  ⟨.EncryptionConfigError, [.ResilienceKitError, .Exception, .BaseException]⟩

def unicodeEncodeError : PyClass :=
  ⟨.UnicodeEncodeError, [.UnicodeError, .ValueError, .Exception, .BaseException]⟩

def unicodeDecodeError : PyClass :=
  ⟨.UnicodeDecodeError, [.UnicodeError, .ValueError, .Exception, .BaseException]⟩

def externalServiceError : PyClass :=
  ⟨.ExternalServiceError, [.ResilienceKitError, .Exception, .BaseException]⟩

/-! The class of `cryptography`. -/

def invalidToken : PyClass := ⟨.InvalidToken, [.Exception, .BaseException]⟩

/-! The class of `pybreaker`. -/

def circuitBreakerError : PyClass := ⟨.CircuitBreakerError, [.Exception, .BaseException]⟩

/-! The classes of `httpx`. -/

def httpStatusError : PyClass := ⟨.HTTPStatusError, [.HTTPError, .Exception, .BaseException]⟩
def requestError : PyClass := ⟨.RequestError, [.HTTPError, .Exception, .BaseException]⟩
def timeoutException : PyClass :=
  ⟨.TimeoutException, [.TransportError, .RequestError, .HTTPError, .Exception, .BaseException]⟩

end PyClass

/-- An exception object; `ident` tells two objects of one class apart. -/
structure PyExc where
  cls : PyClass
  ident : ℕ
  deriving DecidableEq, Repr

def isinstance (e : PyExc) (c : PyClass) : Bool := e.cls.issubclass c

/-- `except (c₁, …, cₙ)` catches `e`. -/
def catches (cs : List PyClass) (e : PyExc) : Bool := cs.any (isinstance e)

/-- How a call of a user function ends. -/
inductive Outcome (V : Type)
  | returned (v : V)
  | raised (e : PyExc)
  deriving DecidableEq, Repr

/-- What the caller of the function gets. -/
def Outcome.result {V : Type} : Outcome V → Except PyExc V
  | .returned v => .ok v
  | .raised e => .error e

end ResilienceKit
