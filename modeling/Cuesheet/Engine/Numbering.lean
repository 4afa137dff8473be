import Cuesheet.Engine.Config
import Cuesheet.Engine.SourceMap

/-!
# Giving ids

A draft is a configuration whose entities are identified by their source locations. Numbering goes
through a draft in a fixed order and replaces every location by the next id of a supply, recording
the location under that id. Operations come in the order of their lists; an action comes behind its
operations, a timeline before its actions, the drivers behind the timelines, and the configuration
last.
-/

set_option autoImplicit false

namespace Cuesheet.Engine

/-- Ids for entities: the kind of an entity and how many ids there were before it, plus one. -/
abbrev IdSupply := (kind : String) → (number : Nat) → String

/-- The ids that count through all entities: `op-1`, `action-2`, … -/
def IdSupply.sequential : IdSupply := fun kind number => kind ++ "-" ++ toString number

/-- How many ids were issued and where their entities stand. -/
structure Numbering where
  issued : Nat
  sourceMap : SourceMap
  deriving Inhabited

/-- What a numbered thing is, given the ids before it. -/
abbrev Numbered (α : Type) := StateM Numbering α

/-- Issues the next id for an entity of the given kind. -/
def issue (supply : IdSupply) (kind : String) (location : Location) : Numbered String :=
  fun n =>
    let id := supply kind (n.issued + 1)
    (id, ⟨n.issued + 1, n.sourceMap.insert id location⟩)

section

variable (supply : IdSupply)

def Operation.number (o : Operation Location) : Numbered (Operation String) := do
  let id ← issue supply "op" o.id
  return { id, name := o.name, data := o.data }

def Operation.numberList : List (Operation Location) → Numbered (List (Operation String))
  | [] => return []
  | o :: rest => do
    let numbered ← o.number supply
    let others ← numberList rest
    return numbered :: others

def Action.number (a : Action Location) : Numbered (Action String) := do
  let start ← Operation.numberList supply a.start
  let finish ← Operation.numberList supply a.finish
  let id ← issue supply "action" a.id
  return { id, name := a.name, start, finish }

def Action.numberList : List (Action Location) → Numbered (List (Action String))
  | [] => return []
  | a :: rest => do
    let numbered ← a.number supply
    let others ← numberList rest
    return numbered :: others

def EventAction.number (a : EventAction Location) : Numbered (EventAction String) := do
  let start ← Operation.numberList supply a.start
  let id ← issue supply "event-action" a.id
  return { id, name := a.name, eventName := a.eventName, eventTopic := a.eventTopic, start }

def EventAction.numberList : List (EventAction Location) → Numbered (List (EventAction String))
  | [] => return []
  | a :: rest => do
    let numbered ← a.number supply
    let others ← numberList rest
    return numbered :: others

def TimelineAction.number (a : TimelineAction Location) : Numbered (TimelineAction String) := do
  let start ← Operation.numberList supply a.start
  let finish ← Operation.numberList supply a.finish
  let id ← issue supply "timeline-action" a.id
  return { id, name := a.name, window := a.window, start, finish }

def TimelineAction.numberList :
    List (TimelineAction Location) → Numbered (List (TimelineAction String))
  | [] => return []
  | a :: rest => do
    let numbered ← a.number supply
    let others ← numberList rest
    return numbered :: others

def Timeline.number (t : Timeline Location) : Numbered (Timeline String) := do
  let id ← issue supply "timeline" t.id
  let actions ← TimelineAction.numberList supply t.actions
  return { id, uri := t.uri, type := t.type, duration := t.duration, loops := t.loops,
           selector := t.selector, actions }

def Timeline.numberList : List (Timeline Location) → Numbered (List (Timeline String))
  | [] => return []
  | t :: rest => do
    let numbered ← t.number supply
    let others ← numberList rest
    return numbered :: others

def ProviderSetting.numberList :
    Dict (ProviderSetting Location) → Numbered (Dict (ProviderSetting String))
  | [] => return []
  | (type, p) :: rest => do
    let id ← issue supply "timeline-provider" p.id
    let others ← numberList rest
    return (type, { id, name := p.name }) :: others

/-- The id of a whole configuration: a given one, which is not issued, or the next one. -/
def configId (fixed : Option String) (location : Location) : Numbered String :=
  match fixed with
  | some id => fun n => (id, { n with sourceMap := n.sourceMap.insert id location })
  | none => issue supply "config" location

def Config.number (fixed : Option String) (c : Config Location) : Numbered (Config String) := do
  let initActions ← Action.numberList supply c.initActions
  let actions ← Action.numberList supply c.actions
  let eventActions ← EventAction.numberList supply c.eventActions
  let timelines ← Timeline.numberList supply c.timelines
  let providers ← ProviderSetting.numberList supply c.providers
  let id ← configId supply fixed c.id
  return { id, engine := c.engine, containerSelector := c.containerSelector,
           language := c.language, availableLanguages := c.availableLanguages,
           layoutTemplate := c.layoutTemplate, cssFiles := c.cssFiles, initActions, actions,
           eventActions, timelines, providers }

end

/-- The configuration of a draft with its source map. -/
def Config.withIds (supply : IdSupply) (fixed : Option String) (draft : Config Location) :
    Config String × SourceMap :=
  let (config, numbering) := draft.number supply fixed |>.run ⟨0, .empty⟩
  (config, numbering.sourceMap)

end Cuesheet.Engine
