import HookRelay.Relay.Step

namespace HookRelay.Relay

/-- What a step needs, and what it leads to. -/
inductive Turn (r : Relay) : Action → Relay → Prop
  | loop {a : EventLoop.Action} {loop : EventLoop} :
      isAcceptors a = false → r.loop.step r.now a = some loop → Turn r (.loop a) { r with loop }
  | cannotListen {e : StreamError} :
      r.acceptor.phase = .starting → r.network.listen r.acceptor.listen = .error e →
      Turn r (.acceptor .start)
        ({ r with loop := r.loop.write [.listenFailed e.text] }.endAcceptor .disabled
          r.acceptor.accepted)
  | listens {a : Address} :
      r.acceptor.phase = .starting → r.network.listen r.acceptor.listen = .ok a →
      Turn r (.acceptor .start)
        { r with acceptor := { r.acceptor with state := .listening a, phase := .accepting } }
  | stops :
      r.acceptor.phase = .accepting → r.loop.stopping = true →
      Turn r (.acceptor .stop) (r.endAcceptor .closed r.acceptor.accepted)
  | accepts {loop : EventLoop} :
      r.acceptor.phase = .accepting → r.acceptor.accepted < r.sockets.length →
      r.loop.step r.now (.request r.acceptor.accepted) = some loop →
      Turn r (.acceptor .accept)
        { r with
          loop
          acceptor := { r.acceptor with
            phase := .registering r.acceptor.accepted, accepted := r.acceptor.accepted + 1 } }
  | turnedDown {k : Nat} :
      r.acceptor.phase = .registering k → r.loop.replies.lookup k = some none →
      Turn r (.acceptor .learn) (r.endAcceptor .closed k)
  | serves {k client : Nat} {c : Client} :
      r.acceptor.phase = .registering k → r.loop.replies.lookup k = some (some client) →
      r.loop.registry.clients[client]? = some c →
      Turn r (.acceptor .learn) (r.serve k client c.id)
  | connects {i : Nat} {s : Served} {l : Link} {a : Connection.Action} {x : Connection × Link} :
      r.connections[i]? = some s → r.link? s = some l →
      Connection.step r.limits r.now a s.connection l = some x →
      Turn r (.connection i a)
        ({ r with connections := r.connections.set i { s with connection := x.1 } }.putLink s x.2)
  | dials :
      r.isListening = true → r.network.reachable = true →
      Turn r .dial { r with sockets := r.sockets ++ [{ window := r.window }] }
  | sends {k : Nat} {s : Socket} {bs : List UInt8} :
      r.sockets[k]? = some s → s.isSending = true →
      Turn r (.send k bs) (r.modifySocket k (Socket.send bs))
  | halfCloses {k : Nat} : Turn r (.halfClose k) (r.modifySocket k Socket.halfClose)
  | closes {k : Nat} : Turn r (.close k) (r.modifySocket k Socket.close)
  | receives {k : Nat} : Turn r (.receive k) (r.modifySocket k Socket.receive)
  | ticks {d : Duration} : Turn r (.tick d) { r with now := r.now + d.nanos }

variable {r r' : Relay} {a : Action}

theorem turn_of_stepAcceptor {s : AcceptorStep} (h : r.stepAcceptor s = some r') :
    Turn r (.acceptor s) r' := by
  unfold stepAcceptor at h
  split at h
  · next hstarting =>
    split at h
    · next hlisten =>
      cases h
      exact .cannotListen hstarting hlisten
    · next hlisten =>
      cases h
      exact .listens hstarting hlisten
  · next haccepting =>
    split at h <;> cases h
    next hstopping =>
    exact .stops haccepting hstopping
  · next haccepting =>
    simp only at h
    split at h
    · next hlt =>
      obtain ⟨loop, hloop, rfl⟩ := Option.map_eq_some_iff.mp h
      exact .accepts haccepting hlt hloop
    · cases h
  · next hregistering =>
    split at h
    · cases h
    · next hlookup =>
      cases h
      exact .turnedDown hregistering hlookup
    · next hlookup =>
      obtain ⟨c, hc, rfl⟩ := Option.map_eq_some_iff.mp h
      exact .serves hregistering hlookup hc
  · cases h

theorem turn_of_step (h : r.step a = some r') : Turn r a r' := by
  cases a with
  | loop a =>
      simp only [step] at h
      split at h
      · cases h
      · next hnot =>
        obtain ⟨loop, hloop, rfl⟩ := Option.map_eq_some_iff.mp h
        exact .loop (Bool.eq_false_iff.mpr hnot) hloop
  | acceptor s => exact turn_of_stepAcceptor h
  | connection i a =>
      obtain ⟨s, hs, h⟩ := Option.bind_eq_some_iff.mp h
      obtain ⟨l, hl, h⟩ := Option.bind_eq_some_iff.mp h
      obtain ⟨x, hx, h⟩ := Option.bind_eq_some_iff.mp h
      cases h
      exact .connects hs hl hx
  | dial =>
      simp only [step] at h
      split at h
      · next hdial =>
        cases h
        rw [Bool.and_eq_true] at hdial
        exact .dials hdial.1 hdial.2
      · cases h
  | send k bs =>
      simp only [step] at h
      split at h
      · cases h
      · next hs =>
        split at h <;> cases h
        next hsending =>
        exact .sends hs hsending
  | halfClose k =>
      cases h
      exact .halfCloses
  | close k =>
      cases h
      exact .closes
  | receive k =>
      cases h
      exact .receives
  | tick d =>
      cases h
      exact .ticks

end HookRelay.Relay
