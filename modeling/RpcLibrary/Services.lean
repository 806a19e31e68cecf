import RpcLibrary.Deployment
import RpcLibrary.ReferenceBinder

/-! What the library is for: a directory that hands out the servers of a function
by turns, and calls that run the skeleton of a server on the caller's arguments.
There are no timestamps, no encoded calls and no databases to keep in agreement. Of
the messages only the answer to a registration is left, with the process that waits
for it. -/

namespace RpcLibrary

structure Services where
  directory : Reference
  skeletons : Address → Signature → Option Skeleton
  parties : Parties

namespace Services

def new : Services := ⟨.new, fun _ _ => none, ⟨fun _ => none, [], fun _ => none⟩⟩

def assign (services : Services) (a : Address) (signature : Signature) (f : Skeleton) :
    Address → Signature → Option Skeleton :=
  Function.update services.skeletons a
    (Function.update (services.skeletons a) signature (some f))

def answer (services : Services) (call : Call) (a : Address) (breakage : Option Breakage) :
    Option CallOutcome :=
  match services.parties.hosts a, breakage with
  | some ⟨_, .serving⟩, none =>
    call.signature.bind fun signature => call.perform (services.skeletons a signature)
  | some ⟨_, .serving⟩, some .unheard =>
    call.signature.bind fun signature => call.performUnheard (services.skeletons a signature)
  | none, _ | some _, some .unhandled =>
    some ⟨.failed StatusCodes.serverConnectionError.toInt call.args, none⟩
  | some _, _ => none

def step (services : Services) : DeploymentEvent → Option (DeploymentOutput × Services)
  | .starts a s =>
    if services.parties.Free a s then
      some (.internal, { services with
        skeletons := Function.update services.skeletons a fun _ => none
        parties := services.parties.start a s })
    else none
  | .registers a name argTypes f =>
    match services.parties.hosts a with
    | some ⟨s, .ready⟩ =>
      (signatureOfArgTypes name argTypes).map fun signature =>
        let (answer, directory) := services.directory.register signature a s
        let host : Host := ⟨s, .awaiting name argTypes f answer.encode⟩
        (.internal, { services with
          directory, parties := services.parties.setHost a (some host) })
    | _ => none
  | .registered a =>
    match services.parties.hosts a with
    | some ⟨s, .awaiting name argTypes f _⟩ =>
      (signatureOfArgTypes name argTypes).map fun signature =>
        (.returned 0, { services with
          skeletons := services.assign a signature f
          parties := services.parties.setHost a (some ⟨s, .ready⟩) })
    | _ => none
  | .executes a =>
    match services.parties.hosts a with
    | some ⟨s, .ready⟩ =>
      some (.internal, { services with
        parties := services.parties.setHost a (some ⟨s, .serving⟩) })
    | _ => none
  | .dies a =>
    if (services.parties.hosts a).isSome then
      some (.internal, { services with parties := services.parties.setHost a none })
    else none
  | .removes s =>
    if services.parties.Closed s then
      some (.internal, { services with
        directory := services.directory.remove s
        parties := services.parties.disconnect s })
    else none
  | .locates c call =>
    match services.parties.clients c with
    | some _ => none
    | none =>
      call.signature.map fun signature =>
        match services.directory.locate signature with
        | (.locateSuccess a, directory) =>
          (.internal, { services with
            directory, parties := services.parties.setClient c (some (call, a)) })
        | (_, directory) =>
          (.finished ⟨.failed StatusCodes.locateFailure.toInt call.args, none⟩,
            { services with directory })
  | .calls c breakage =>
    match services.parties.clients c with
    | none => none
    | some (call, a) =>
      (services.answer call a breakage).map fun outcome =>
        (.finished outcome, { services with parties := services.parties.setClient c none })

end Services

end RpcLibrary
