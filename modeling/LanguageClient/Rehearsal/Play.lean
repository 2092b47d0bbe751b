import LanguageClient.Manager
import LanguageClient.Rehearsal.Part

/-!
# Plays

In a play, a client and a cast of scripted servers act in turn: the client comes to
rest, the servers react to what they received, and so on until nobody has anything left
to do.
-/

set_option autoImplicit false

namespace LanguageClient

/-- Lets a system rest and react in turn, at most so many times; `rest` lets it come to
rest, and `react` gives the actions that an event leads to. -/
def alternate {σ ε α : Type} (rest : σ → σ × List ε) (react : σ → ε → List α)
    (act : σ → List α → σ × List ε) : Nat → σ → σ × List ε
  | 0, s => (s, [])
  | fuel + 1, s =>
    let (s, seen) := rest s
    match seen.flatMap (react s) with
    | [] => (s, seen)
    | actions =>
      let (s, reactions) := act s actions
      let (s, more) := alternate rest react act fuel s
      (s, seen ++ reactions ++ more)

/-- The scripted servers by language. -/
abbrev Cast := Entries Part

namespace Workspace

/-- What the servers of a cast do about something that was seen. -/
def reaction (cast : Cast) (w : Workspace) : Event → List Action
  | .inLane number (.wrote m) =>
    let part := (w.lanes[number]?).bind fun l => cast.find? l.session.language
    (part.elim [] (·.play m)).map fun a => .lane number (.session a)
  | _ => []

/-- The workspace and the servers act until nobody has anything left to do. -/
def rehearse (cast : Cast) (w : Workspace) : Moved :=
  alternate settle (reaction cast) run w.work w

end Workspace

namespace Manager

/-- What the servers of a cast do about something that was seen. -/
def reaction (cast : Cast) (m : Manager) : Event → List Action
  | .inWorkspace e => (m.workspace.reaction cast e).map .workspace
  | _ => []

/-- The manager and the servers act until nobody has anything left to do. -/
def rehearse (launcher : Launcher) (cast : Cast) (m : Manager) : Moved :=
  alternate (settle launcher) (reaction cast) (run launcher) m.work m

end Manager

end LanguageClient
