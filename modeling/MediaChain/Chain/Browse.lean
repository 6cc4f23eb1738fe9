import MediaChain.Chain.Negotiation

/-!
# Browsing

`Builder.browse` lists what lies below a url: the plugin with the best claim on the url sets up one
stage, lists, and is released.
-/

namespace MediaChain

variable {ι ε : Type}

/-- Lets the plugin of a stage list what lies below a url; `none` if it does not browse. -/
def Stage.browse (tap : Tap ι ε) (url : String) : StageOp ι ε (Option Listing) := fun s f =>
  match s.engine with
  | none => (.ok none, s, f)
  | some engine =>
    if engine.plugin.capabilities.browse then
      let f := f.record (.browse s.name engine.id url)
      let ((reply, state), s, f) :=
        s.play tap f (engine.plugin.browse engine.state url (.empty url))
      let s := { s with engine := some { engine with state } }
      match reply with
      | .ok listing => (.ok (some listing), s, f)
      | .error e => (.error (.plugin s.name e), s, f)
    else (.ok none, s, f)

namespace Builder

/-- Lists what lies below a url, which is given encoded. -/
def browse (b : Builder ι ε) (url : String) (backstage : Backstage ε) :
    Except ChainError (List Listing.Entry) × Backstage ε :=
  match Url.decode? url with
  | none => (.error (.malformedUrl url), backstage)
  | some decoded =>
    match b.next [] ⟨[.ofUrl b.settings [] decoded], ⟨.empty, backstage⟩⟩ with
    | (.error _, f) => (.error (.browseUnsupported url), (abandon f).backstage)
    | (.ok stage, f) =>
      let (result, stage, f) := stage.browse (Tap.reaching f.stages.length) decoded f
      let backstage := (abandon { f with stages := stage :: f.stages }).backstage
      match result with
      | .error e => (.error (.stage e), backstage)
      | .ok none => (.error (.browseUnsupported url), backstage)
      | .ok (some listing) => (.ok listing.sorted, backstage)

end Builder

end MediaChain
