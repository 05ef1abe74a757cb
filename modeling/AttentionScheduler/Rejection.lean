/-!
Why a configuration is turned down, as the host is told.
-/

namespace AttentionScheduler

inductive RejectionKind where
  | invalidConfig
  | capacityExceeded
deriving DecidableEq

namespace RejectionKind

def all : List RejectionKind := [invalidConfig, capacityExceeded]

def name : RejectionKind → String
  | invalidConfig => "InvalidConfig"
  | capacityExceeded => "CapacityExceeded"

def code : RejectionKind → Nat
  | invalidConfig => 1
  | capacityExceeded => 2

def category : RejectionKind → String
  | invalidConfig => "config"
  | capacityExceeded => "capacity"

end RejectionKind

structure Rejection where
  kind : RejectionKind
  message : String
  field? : Option String := none
deriving DecidableEq

namespace Rejection

def invalidField (field message : String) : Rejection :=
  { kind := .invalidConfig, message, field? := some field }

def text (r : Rejection) : String :=
  "[" ++ r.kind.category ++ "] " ++ r.message ++
    match r.field? with
    | some field => " (field: " ++ field ++ ")"
    | none => ""

end Rejection

end AttentionScheduler
