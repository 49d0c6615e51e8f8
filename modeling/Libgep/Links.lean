import Libgep.Network

/-!
# Connections as both sides see them

The server knows a connection by the descriptor of a channel, and a client by
its only descriptor.  What the logs of the two tell of the bytes that were
read is what the kernel has handed out.
-/

namespace Libgep

open Transition

variable {κ Msg : Type*} {p : κ → GepProtocol Msg} {q : GepProtocol Msg} {t : Tcp}
  {k k' : Kernel κ p q} {x y : κ × ℕ}

/-! ## Pipes -/

theorem Call.wire_append (xs ys : List (Call q)) :
    Call.wire (xs ++ ys) = Call.wire xs ++ Call.wire ys :=
  List.flatMap_append

theorem RawRecv.flatten_chunks (bytes : List UInt8) :
    (RawRecv.data bytes).chunks.flatten = bytes := by
  cases bytes <;> simp [RawRecv.chunks]

namespace Pipe

variable {pipe : Pipe q}

@[simp] theorem push_calls (calls : List (Call q)) :
    (pipe.push calls).calls = pipe.calls ++ calls := rfl

@[simp] theorem push_nil : pipe.push [] = pipe := by
  simp [push, Call.wire]

@[simp] theorem pop_calls (bytes : List UInt8) : (pipe.pop bytes).calls = pipe.calls := rfl

/-- What `Recv` returns has been at the head of the queue. -/
theorem append_pop {bytes : List UInt8} (h : bytes <+: pipe.queue) :
    bytes ++ (pipe.pop bytes).queue = pipe.queue := by
  obtain ⟨rest, hrest⟩ := h
  rw [pop, ← hrest, List.drop_left]

end Pipe

/-! ## Operations of the kernel -/

namespace Kernel

variable [DecidableEq κ]

section OnLink

variable (f : ∀ {i}, Link (p i) q → Link (p i) q)

@[simp] theorem onLink_links_self : (k.onLink x f).links x = f (k.links x) :=
  Function.update_self _ _ _

theorem onLink_links_of_ne (h : y ≠ x) : (k.onLink x f).links y = k.links y :=
  Function.update_of_ne h _ _

theorem onLink_links : (k.onLink x f).links y = if y = x then f (k.links y) else k.links y := by
  split_ifs with h
  · subst h
    exact k.onLink_links_self f
  · exact k.onLink_links_of_ne f h

@[simp] theorem onLink_serverFds : (k.onLink x f).serverFds = k.serverFds := rfl

@[simp] theorem onLink_clientFds : (k.onLink x f).clientFds = k.clientFds := rfl

@[simp] theorem onLink_opened : (k.onLink x f).opened = k.opened := rfl

variable {f} in
/-- An update of one link that keeps a part of it keeps it for all of them. -/
theorem onLink_same {γ : κ → Type*} (g : ∀ {i}, Link (p i) q → γ i)
    (h : g (f (k.links x)) = g (k.links x)) (y : κ × ℕ) :
    g ((k.onLink x f).links y) = g (k.links y) := by
  by_cases heq : y = x
  · subst heq
    rw [onLink_links_self, h]
  · rw [k.onLink_links_of_ne f heq]

end OnLink

omit [DecidableEq κ] in
@[simp] theorem setServerFd_links (fd : ℤ) (z : Option (κ × ℕ)) :
    (k.setServerFd fd z).links = k.links := rfl

omit [DecidableEq κ] in
@[simp] theorem setServerFd_serverFds (fd : ℤ) (z : Option (κ × ℕ)) :
    (k.setServerFd fd z).serverFds = Function.update k.serverFds fd z := rfl

omit [DecidableEq κ] in
@[simp] theorem setServerFd_opened (fd : ℤ) (z : Option (κ × ℕ)) :
    (k.setServerFd fd z).opened = k.opened := rfl

theorem pushUp_links_of_ne (calls : List (Call (p x.1))) (h : y ≠ x) :
    (k.pushUp x calls).links y = k.links y :=
  Function.update_of_ne h _ _

theorem pushUp_links_self (calls : List (Call (p x.1))) :
    (k.pushUp x calls).links x = { k.links x with up := (k.links x).up.push calls } :=
  Function.update_self _ _ _

/-- What is not about the bytes that a client has sent stays as it is. -/
theorem pushUp_same {γ : κ → Type*} (g : ∀ {i}, Link (p i) q → γ i) (calls : List (Call (p x.1)))
    (h : g { k.links x with up := (k.links x).up.push calls } = g (k.links x)) (y : κ × ℕ) :
    g ((k.pushUp x calls).links y) = g (k.links y) := by
  by_cases heq : y = x
  · subst heq
    rw [pushUp_links_self, h]
  · rw [k.pushUp_links_of_ne calls heq]

theorem pushUp_id (calls : List (Call (p x.1))) (y : κ × ℕ) :
    ((k.pushUp x calls).links y).id = (k.links y).id :=
  k.pushUp_same Link.id calls rfl y

@[simp] theorem setClientFd_links (i : κ) (fd : ℤ) (n : Option ℕ) :
    (k.setClientFd i fd n).links = k.links := rfl

@[simp] theorem setClientFd_clientFds (i : κ) (fd : ℤ) (n : Option ℕ) :
    (k.setClientFd i fd n).clientFds =
      Function.update k.clientFds i (Function.update (k.clientFds i) fd n) := rfl

theorem serverClose_same {γ : κ → Type*} (g : ∀ {i}, Link (p i) q → γ i)
    (h : ∀ {i} (l : Link (p i) q), g { l with serverOpen := false } = g l) (fd : ℤ) (y : κ × ℕ) :
    g ((k.serverClose fd).links y) = g (k.links y) := by
  unfold serverClose
  split
  · rfl
  · rw [setServerFd_links]
    exact onLink_same g (h _) y

theorem serverAccept_same {γ : κ → Type*} (g : ∀ {i}, Link (p i) q → γ i)
    (h : ∀ {i} (l : Link (p i) q), g { l with waiting := false, serverOpen := true } = g l)
    (fd : ℤ) (y : κ × ℕ) : g ((k.serverAccept x fd).links y) = g (k.links y) := by
  rw [serverAccept, setServerFd_links]
  exact onLink_same g (h _) y

theorem reset_same {γ : κ → Type*} (g : ∀ {i}, Link (p i) q → γ i)
    (h : ∀ {i} (l : Link (p i) q), g { l with wasReset := true } = g l) (y : κ × ℕ) :
    g ((k.reset x).links y) = g (k.links y) :=
  onLink_same g (h _) y

section ClientSocket

variable {i : κ} {connects elsewhere : Bool} {fd : ℤ}

theorem clientSocket_links : (k.clientSocket i connects elsewhere fd).links y =
    if connects = true ∧ y = (i, k.opened i) then
      { k.links y with waiting := !elsewhere, clientOpen := true, elsewhere := elsewhere }
    else k.links y := by
  cases connects with
  | false => simp [clientSocket]
  | true => simp [clientSocket, onLink_links]

theorem clientSocket_serverFds :
    (k.clientSocket i connects elsewhere fd).serverFds = k.serverFds := by
  cases connects <;> rfl

theorem clientSocket_opened : (k.clientSocket i connects elsewhere fd).opened =
    Function.update k.opened i (k.opened i + 1) := by
  cases connects <;> rfl

theorem clientSocket_clientFds : (k.clientSocket i connects elsewhere fd).clientFds =
    if connects then
      Function.update k.clientFds i (Function.update (k.clientFds i) fd (some (k.opened i)))
    else k.clientFds := by
  cases connects <;> rfl

end ClientSocket

/-! ### What an event leaves alone -/

/-- The server reads and closes, and opens nothing for a client. -/
structure ServerKeeps (k k' : Kernel κ p q) : Prop where
  opened : k'.opened = k.opened
  clientFds : k'.clientFds = k.clientFds
  calls : ∀ y, (k'.links y).up.calls = (k.links y).up.calls
  down : ∀ y, (k'.links y).down = (k.links y).down
  elsewhere : ∀ y, (k'.links y).elsewhere = (k.links y).elsewhere

omit [DecidableEq κ] in
theorem ServerKeeps.trans {k'' : Kernel κ p q} (h : ServerKeeps k k') (h' : ServerKeeps k' k'') :
    ServerKeeps k k'' :=
  ⟨h'.opened.trans h.opened, h'.clientFds.trans h.clientFds,
    fun y ↦ (h'.calls y).trans (h.calls y), fun y ↦ (h'.down y).trans (h.down y),
    fun y ↦ (h'.elsewhere y).trans (h.elsewhere y)⟩

omit [DecidableEq κ] in
theorem ServerKeeps.refl (k : Kernel κ p q) : ServerKeeps k k :=
  ⟨rfl, rfl, fun _ ↦ rfl, fun _ ↦ rfl, fun _ ↦ rfl⟩

theorem serverClose_keeps (fd : ℤ) : ServerKeeps k (k.serverClose fd) := by
  refine ⟨?_, ?_, serverClose_same (fun l ↦ l.up.calls) (fun _ ↦ rfl) fd,
    serverClose_same Link.down (fun _ ↦ rfl) fd,
    serverClose_same Link.elsewhere (fun _ ↦ rfl) fd⟩
  · unfold serverClose
    split <;> rfl
  · unfold serverClose
    split <;> rfl

theorem serverEvent_keeps {ev : ArrayEvent Msg} (h : Kernel.serverEvent t x k ev = some k') :
    ServerKeeps k k' := by
  unfold serverEvent at h
  split at h
  · cases h
    obtain ⟨hopened, hfds, hcalls, hdown, helsewhere⟩ := k.serverClose_keeps _
    exact ⟨hopened, hfds, hcalls, hdown, helsewhere⟩
  · split_ifs at h
    · cases h
      exact .refl k
    · cases h
      exact ⟨rfl, rfl, serverAccept_same (fun l ↦ l.up.calls) (fun _ ↦ rfl) _,
        serverAccept_same Link.down (fun _ ↦ rfl) _,
        serverAccept_same Link.elsewhere (fun _ ↦ rfl) _⟩
  · cases h
    exact ⟨rfl, rfl, onLink_same (fun l ↦ l.up.calls) rfl, onLink_same Link.down rfl,
      onLink_same Link.elsewhere rfl⟩
  · split at h
    · cases h
    · split_ifs at h
      cases h
      exact ⟨rfl, rfl, onLink_same (fun l ↦ l.up.calls) rfl, onLink_same Link.down rfl,
        onLink_same Link.elsewhere rfl⟩
  · cases h
    exact serverClose_keeps _
  · cases h
    exact serverClose_keeps _
  · cases h
    exact .refl k

theorem server_keeps {es : List (ArrayEvent Msg)}
    (h : es.foldlM (Kernel.serverEvent t x) k = some k') : ServerKeeps k k' :=
  rel_of_foldlM (R := ServerKeeps) ServerKeeps.refl ServerKeeps.trans
    (fun _ _ _ _ hev ↦ serverEvent_keeps hev) h

/-- The ids of the connections change only when a client is added. -/
theorem serverEvent_id {ev : ArrayEvent Msg} (hev : ∀ id, ev ≠ .addClient id)
    (h : Kernel.serverEvent t x k ev = some k') (y : κ × ℕ) : (k'.links y).id = (k.links y).id := by
  unfold serverEvent at h
  split at h
  · cases h
    exact serverClose_same Link.id (fun _ ↦ rfl) _ y
  · split_ifs at h
    · cases h
      rfl
    · cases h
      exact serverAccept_same Link.id (fun _ ↦ rfl) _ y
  · exact absurd rfl (hev _)
  · split at h
    · cases h
    · split_ifs at h
      cases h
      exact onLink_same Link.id rfl y
  · cases h
    exact serverClose_same Link.id (fun _ ↦ rfl) _ y
  · cases h
    exact serverClose_same Link.id (fun _ ↦ rfl) _ y
  · cases h
    rfl

theorem server_id {es : List (ArrayEvent Msg)} (hes : ∀ ev ∈ es, ∀ id, ev ≠ .addClient id)
    (h : es.foldlM (Kernel.serverEvent t x) k = some k') : ∀ y, (k'.links y).id = (k.links y).id :=
  rel_of_foldlM (R := fun k k' : Kernel κ p q ↦ ∀ y, (k'.links y).id = (k.links y).id)
    (fun _ _ ↦ rfl) (fun h h' y ↦ (h' y).trans (h y))
    (fun ev hmem _ _ hev ↦ serverEvent_id (hes ev hmem) hev) h

/-- What a client `i` does concerns neither the other clients nor what has been
sent. -/
structure ClientKeeps (i : κ) (k k' : Kernel κ p q) : Prop where
  serverFds : k'.serverFds = k.serverFds
  opened : ∀ j ≠ i, k'.opened j = k.opened j
  opens : k.opened i ≤ k'.opened i
  clientFds : ∀ j ≠ i, k'.clientFds j = k.clientFds j
  links : ∀ j ≠ i, ∀ n, k'.links (j, n) = k.links (j, n)
  id : ∀ y, (k'.links y).id = (k.links y).id
  calls : ∀ y, (k'.links y).up.calls = (k.links y).up.calls
  sent : ∀ y, (k'.links y).down.calls = (k.links y).down.calls
  elsewhere : ∀ n < k.opened i, (k'.links (i, n)).elsewhere = (k.links (i, n)).elsewhere

omit [DecidableEq κ] in
theorem ClientKeeps.trans {i : κ} {k'' : Kernel κ p q} (h : ClientKeeps i k k')
    (h' : ClientKeeps i k' k'') : ClientKeeps i k k'' :=
  ⟨h'.serverFds.trans h.serverFds, fun j hj ↦ (h'.opened j hj).trans (h.opened j hj),
    h.opens.trans h'.opens, fun j hj ↦ (h'.clientFds j hj).trans (h.clientFds j hj),
    fun j hj n ↦ (h'.links j hj n).trans (h.links j hj n),
    fun y ↦ (h'.id y).trans (h.id y), fun y ↦ (h'.calls y).trans (h.calls y),
    fun y ↦ (h'.sent y).trans (h.sent y),
    fun n hn ↦ (h'.elsewhere n (hn.trans_le h.opens)).trans (h.elsewhere n hn)⟩

omit [DecidableEq κ] in
theorem ClientKeeps.refl (i : κ) (k : Kernel κ p q) : ClientKeeps i k k :=
  ⟨rfl, fun _ _ ↦ rfl, le_rfl, fun _ _ ↦ rfl, fun _ _ _ ↦ rfl, fun _ ↦ rfl, fun _ ↦ rfl,
    fun _ ↦ rfl, fun _ _ ↦ rfl⟩

theorem onLink_keeps {i : κ} {n : ℕ} {f : ∀ {i}, Link (p i) q → Link (p i) q}
    (hid : (f (k.links (i, n))).id = (k.links (i, n)).id)
    (hcalls : (f (k.links (i, n))).up.calls = (k.links (i, n)).up.calls)
    (hsent : (f (k.links (i, n))).down.calls = (k.links (i, n)).down.calls)
    (helsewhere : (f (k.links (i, n))).elsewhere = (k.links (i, n)).elsewhere) :
    ClientKeeps i k (k.onLink (i, n) f) := by
  refine ⟨rfl, fun _ _ ↦ rfl, le_rfl, fun _ _ ↦ rfl, fun j hj m ↦ ?_, onLink_same Link.id hid,
    onLink_same (fun l ↦ l.up.calls) hcalls, onLink_same (fun l ↦ l.down.calls) hsent,
    fun m _ ↦ onLink_same Link.elsewhere helsewhere (i, m)⟩
  exact k.onLink_links_of_ne f fun heq ↦ hj (Prod.mk.inj heq).1

theorem clientSocket_keeps (i : κ) (connects elsewhere : Bool) (fd : ℤ) :
    ClientKeeps i k (k.clientSocket i connects elsewhere fd) := by
  refine ⟨clientSocket_serverFds, fun j hj ↦ ?_, ?_, fun j hj ↦ ?_, fun j hj n ↦ ?_, fun y ↦ ?_,
    fun y ↦ ?_, fun y ↦ ?_, fun n hn ↦ ?_⟩
  · rw [clientSocket_opened, Function.update_of_ne hj]
  · rw [clientSocket_opened, Function.update_self]
    exact Nat.le_succ _
  · rw [clientSocket_clientFds]
    split_ifs
    · exact Function.update_of_ne hj _ _
    · rfl
  · rw [clientSocket_links, if_neg]
    exact fun heq ↦ hj (Prod.mk.inj heq.2).1
  · rw [clientSocket_links]
    split_ifs <;> rfl
  · rw [clientSocket_links]
    split_ifs <;> rfl
  · rw [clientSocket_links]
    split_ifs <;> rfl
  · rw [clientSocket_links, if_neg]
    exact fun heq ↦ hn.ne (Prod.mk.inj heq.2).2

theorem clientClose_keeps (i : κ) (fd : ℤ) : ClientKeeps i k (k.clientClose i fd) := by
  unfold clientClose
  split
  · exact .refl i k
  · rename_i n hn
    obtain ⟨hserver, hopened, hopens, -, hlinks, hid, hcalls, hsent, helsewhere⟩ :=
      k.onLink_keeps (i := i) (n := n) (f := fun l ↦ { l with clientOpen := false }) rfl rfl rfl rfl
    exact ⟨hserver, hopened, hopens, fun j hj ↦ Function.update_of_ne hj _ _, hlinks, hid, hcalls,
      hsent, helsewhere⟩

theorem clientEvent_keeps {i : κ} {connects elsewhere : Bool} {ev : ClientEvent Msg}
    (h : Kernel.clientEvent t i connects elsewhere k ev = some k') : ClientKeeps i k k' := by
  unfold clientEvent at h
  split at h
  · cases h
    exact k.clientSocket_keeps i connects elsewhere _
  · cases h
    exact k.clientClose_keeps i _
  · cases h
    exact k.clientClose_keeps i _
  · split at h
    · cases h
    · dsimp only at h
      split_ifs at h
      · cases h
        exact .refl i k
      · cases h
        exact onLink_keeps rfl rfl rfl rfl
  · cases h
    exact .refl i k

theorem client_keeps {i : κ} {connects elsewhere : Bool} {es : List (ClientEvent Msg)}
    (h : es.foldlM (Kernel.clientEvent t i connects elsewhere) k = some k') : ClientKeeps i k k' :=
  rel_of_foldlM (R := ClientKeeps i) (ClientKeeps.refl i) ClientKeeps.trans
    (fun _ _ _ _ hev ↦ clientEvent_keeps hev) h

end Kernel

/-! ## The server's side -/

/-- The bytes that a client has sent, by a ledger; none from a client that has
not been added. -/
def Ledger.read (l : Ledger) : Option ℤ → List UInt8
  | none => []
  | some id => (l.chunks id).flatten

/-- The ledger of the server and the kernel agree: a descriptor belongs to the
client that has been added for its connection, and what that client is said to
have sent has been taken out of the connection. -/
structure ServerView (l : Ledger) (k : Kernel κ p q) : Prop where
  owner : ∀ fd x, k.serverFds fd = some x →
    l.isOpen fd = true ∧ l.owner fd = (k.links x).id
  unowned : ∀ fd, k.serverFds fd = none → l.owner fd = none
  fd_inj : ∀ fd fd' x, k.serverFds fd = some x → k.serverFds fd' = some x → fd = fd'
  id_inj : ∀ x y id, (k.links x).id = some id → (k.links y).id = some id → x = y
  waiting : ∀ x, (k.links x).waiting = true →
    (k.links x).id = none ∧ (k.links x).elsewhere = false ∧ ∀ fd, k.serverFds fd ≠ some x
  elsewhere : ∀ x, (k.links x).elsewhere = true →
    (k.links x).id = none ∧ ∀ fd, k.serverFds fd ≠ some x
  silent : ∀ id, (∀ x, (k.links x).id ≠ some id) → l.chunks id = []
  wire : ∀ x, Call.wire (k.links x).up.calls = l.read (k.links x).id ++ (k.links x).up.queue
  known : ∀ fd x, k.serverFds fd = some x → x.2 < k.opened x.1
  new : ∀ x, k.opened x.1 ≤ x.2 → k.links x = .new

namespace ServerView

variable {l : Ledger} {fd : ℤ}

theorem congr (h : ServerView l k) (hfds : k'.serverFds = k.serverFds)
    (hid : ∀ x, (k'.links x).id = (k.links x).id) (hup : ∀ x, (k'.links x).up = (k.links x).up)
    (hwaiting : ∀ x, (k'.links x).waiting = true → (k.links x).id = none ∧
      (k'.links x).elsewhere = false ∧ ∀ fd, k.serverFds fd ≠ some x)
    (helsewhere : ∀ x, (k'.links x).elsewhere = true →
      (k.links x).id = none ∧ ∀ fd, k.serverFds fd ≠ some x)
    (hopened : ∀ i, k.opened i ≤ k'.opened i)
    (hnew : ∀ x, k'.opened x.1 ≤ x.2 → k'.links x = .new) : ServerView l k' := by
  refine ⟨?_, ?_, ?_, ?_, ?_, ?_, ?_, ?_, ?_, hnew⟩ <;> simp only [hfds, hid, hup]
  · exact h.owner
  · exact h.unowned
  · exact h.fd_inj
  · exact h.id_inj
  · exact hwaiting
  · exact helsewhere
  · exact h.silent
  · exact h.wire
  · exact fun fd x hx ↦ (h.known fd x hx).trans_le (hopened x.1)

theorem not_connected (h : ServerView l k) (hfd : l.isOpen fd = false) : k.serverFds fd = none := by
  by_contra hne
  obtain ⟨x, hx⟩ := Option.ne_none_iff_exists'.mp hne
  rw [(h.owner fd x hx).1] at hfd
  cases hfd

theorem opened (h : ServerView l k) (fd : ℤ) : ServerView (l.opened fd) k := by
  refine ⟨fun fd' x hx ↦ ⟨?_, (h.owner fd' x hx).2⟩, h.unowned, h.fd_inj, h.id_inj, h.waiting,
    h.elsewhere, h.silent, h.wire, h.known, h.new⟩
  by_cases heq : fd' = fd
  · rw [heq]
    exact Function.update_self _ _ _
  · rw [(l.opened_of_ne heq).1]
    exact (h.owner fd' x hx).1

/-- A connection that has been added leads to the server. -/
theorem not_elsewhere (h : ServerView l k) {id : ℤ} (hid : (k.links x).id = some id) :
    (k.links x).elsewhere = false := by
  by_contra helsewhere
  rw [(h.elsewhere x (by simpa using helsewhere)).1] at hid
  cases hid

theorem known_of_waiting (h : ServerView l k) (hwaiting : (k.links x).waiting = true) :
    x.2 < k.opened x.1 := by
  by_contra hunknown
  rw [h.new x (Nat.le_of_not_lt hunknown)] at hwaiting
  cases hwaiting

variable [DecidableEq κ]

theorem new_onLink (h : ServerView l k) (hx : x.2 < k.opened x.1)
    (f : ∀ {i}, Link (p i) q → Link (p i) q) : ∀ y, k.opened y.1 ≤ y.2 → (k.onLink x f).links y = .new := by
  intro y hy
  rw [k.onLink_links_of_ne]
  · exact h.new y hy
  · rintro rfl
    omega

/-- A connection is accepted on a descriptor that was not open. -/
theorem accepted (h : ServerView l k) (hfd : l.isOpen fd = false)
    (hwaiting : (k.links x).waiting = true) :
    ServerView { l.opened fd with last := fd } (k.serverAccept x fd) := by
  obtain ⟨hnone, hserver, hnot⟩ := h.waiting x hwaiting
  have hknown := h.known_of_waiting hwaiting
  have hid := k.serverAccept_same (x := x) Link.id (fun _ ↦ rfl) fd
  have hup := k.serverAccept_same (x := x) Link.up (fun _ ↦ rfl) fd
  have helsewhere := k.serverAccept_same (x := x) Link.elsewhere (fun _ ↦ rfl) fd
  have hold : ∀ fd' y, (k.serverAccept x fd).serverFds fd' = some y →
      (fd' = fd ∧ y = x) ∨ (fd' ≠ fd ∧ k.serverFds fd' = some y) := by
    intro fd' y hy
    rw [Kernel.serverAccept, Kernel.setServerFd_serverFds] at hy
    by_cases heq : fd' = fd
    · rw [heq, Function.update_self] at hy
      exact .inl ⟨heq, (Option.some.inj hy).symm⟩
    · rw [Function.update_of_ne heq] at hy
      exact .inr ⟨heq, hy⟩
  refine ⟨fun fd' y hy ↦ ?_, fun fd' hfd' ↦ ?_, fun fd₁ fd₂ y h₁ h₂ ↦ ?_, fun y z id ↦ ?_,
    fun y hy ↦ ?_, fun y hy ↦ ?_, fun id hfree ↦ ?_, fun y ↦ ?_, fun fd' y hy ↦ ?_, fun y hy ↦ ?_⟩
  · rw [hid]
    rcases hold fd' y hy with ⟨rfl, rfl⟩ | ⟨hfd', hy⟩
    · rw [hnone]
      exact ⟨Function.update_self _ _ _, h.unowned _ (h.not_connected hfd)⟩
    · dsimp only
      rw [(l.opened_of_ne hfd').1]
      exact h.owner fd' y hy
  · rw [Kernel.serverAccept, Kernel.setServerFd_serverFds] at hfd'
    by_cases heq : fd' = fd
    · rw [heq, Function.update_self] at hfd'
      cases hfd'
    · rw [Function.update_of_ne heq] at hfd'
      exact h.unowned fd' hfd'
  · rcases hold fd₁ y h₁ with ⟨hfd₁, hx⟩ | ⟨-, hold₁⟩ <;>
      rcases hold fd₂ y h₂ with ⟨hfd₂, hx'⟩ | ⟨-, hold₂⟩
    · rw [hfd₁, hfd₂]
    · exact absurd (hx ▸ hold₂) (hnot _)
    · exact absurd (hx' ▸ hold₁) (hnot _)
    · exact h.fd_inj _ _ y hold₁ hold₂
  · rw [hid, hid]
    exact h.id_inj y z id
  · rw [Kernel.serverAccept, Kernel.setServerFd_links, Kernel.onLink_links] at hy
    split_ifs at hy with heq
    rw [hid, helsewhere]
    obtain ⟨hnone', hserver', hnot'⟩ := h.waiting y hy
    refine ⟨hnone', hserver', fun fd' hfd' ↦ ?_⟩
    rcases hold fd' y hfd' with ⟨-, heq'⟩ | ⟨-, hfd'⟩
    · exact heq heq'
    · exact hnot' fd' hfd'
  · rw [helsewhere] at hy
    rw [hid]
    obtain ⟨hnone', hnot'⟩ := h.elsewhere y hy
    refine ⟨hnone', fun fd' hfd' ↦ ?_⟩
    rcases hold fd' y hfd' with ⟨-, rfl⟩ | ⟨-, hfd'⟩
    · rw [hserver] at hy
      cases hy
    · exact hnot' fd' hfd'
  · simp only [hid] at hfree
    exact h.silent id hfree
  · rw [hid, hup]
    exact h.wire y
  · rcases hold fd' y hy with ⟨-, heq⟩ | ⟨-, hold⟩
    · exact heq ▸ hknown
    · exact h.known fd' y hold
  · rw [Kernel.serverAccept, Kernel.setServerFd_links]
    exact h.new_onLink hknown _ y hy

/-- A client is added for the connection that was accepted last. -/
theorem added (h : ServerView l k) (hlast : k.serverFds l.last = some x)
    (hnone : (k.links x).id = none) {id : ℤ} (hnew : ∀ y, (k.links y).id ≠ some id) :
    ServerView { l with owner := Function.update l.owner l.last (some id) }
      (k.onLink x fun l ↦ { l with id := some id }) := by
  have hup : ∀ y, ((k.onLink x fun l ↦ { l with id := some id }).links y).up = (k.links y).up :=
    k.onLink_same Link.up rfl
  have hid : ∀ y, y ≠ x →
      ((k.onLink x fun l ↦ { l with id := some id }).links y).id = (k.links y).id := by
    intro y hy
    rw [k.onLink_links_of_ne _ hy]
  have helsewhere : ∀ y, ((k.onLink x fun l ↦ { l with id := some id }).links y).elsewhere =
      (k.links y).elsewhere := k.onLink_same Link.elsewhere rfl
  have hself : ((k.onLink x fun l ↦ { l with id := some id }).links x).id = some id := by
    rw [Kernel.onLink_links_self]
  refine ⟨fun fd y hy ↦ ⟨(h.owner fd y hy).1, ?_⟩, fun fd hfd ↦ ?_, h.fd_inj,
    fun y z id' hy hz ↦ ?_, fun y hy ↦ ?_, fun y hy ↦ ?_,
    fun id' hfree ↦ h.silent id' fun y hy ↦ ?_, fun y ↦ ?_, h.known,
    h.new_onLink (h.known _ _ hlast) _⟩
  · dsimp only
    by_cases heq : y = x
    · rw [h.fd_inj fd l.last x (heq ▸ hy) hlast, Function.update_self, heq, hself]
    · rw [Function.update_of_ne, hid y heq]
      · exact (h.owner fd y hy).2
      · rintro rfl
        exact heq (Option.some.inj (hy.symm.trans hlast))
  · dsimp only
    rw [Function.update_of_ne]
    · exact h.unowned fd hfd
    · rintro rfl
      exact Option.some_ne_none _ (hlast.symm.trans hfd)
  · by_cases hyx : y = x <;> by_cases hzx : z = x
    · rw [hyx, hzx]
    · rw [hyx, hself] at hy
      rw [hid z hzx, ← hy] at hz
      exact absurd hz (hnew z)
    · rw [hzx, hself] at hz
      rw [hid y hyx, ← hz] at hy
      exact absurd hy (hnew y)
    · exact h.id_inj y z id' (hid y hyx ▸ hy) (hid z hzx ▸ hz)
  · have hsame : ((k.onLink x fun l ↦ { l with id := some id }).links y).waiting =
        (k.links y).waiting := k.onLink_same Link.waiting rfl y
    rw [hsame] at hy
    obtain ⟨hnone', hserver, hnot⟩ := h.waiting y hy
    have hyx : y ≠ x := by
      rintro rfl
      exact hnot _ hlast
    rw [hid y hyx, helsewhere]
    exact ⟨hnone', hserver, hnot⟩
  · rw [helsewhere] at hy
    obtain ⟨hnone', hnot⟩ := h.elsewhere y hy
    have hyx : y ≠ x := by
      rintro rfl
      exact hnot _ hlast
    rw [hid y hyx]
    exact ⟨hnone', hnot⟩
  · apply hfree y
    rw [hid y]
    · exact hy
    · rintro rfl
      rw [hnone] at hy
      cases hy
  · rw [hup]
    by_cases hyx : y = x
    · rw [hyx, hself, h.wire x, hnone]
      change _ = (l.chunks id).flatten ++ _
      rw [h.silent id hnew]
      rfl
    · rw [hid y hyx]
      exact h.wire y

/-- A chunk is read from the connection of a client. -/
theorem received (h : ServerView l k) (hx : k.serverFds fd = some x) {id : ℤ}
    (hid : (k.links x).id = some id) {bytes : List UInt8}
    (hfront : bytes <+: (k.links x).up.queue) :
    ServerView (l.received fd (.data bytes))
      (k.onLink x fun l ↦ { l with up := l.up.pop bytes }) := by
  have howner := (h.owner fd x hx).2
  rw [hid] at howner
  have hledger : l.received fd (.data bytes) = { l with
      chunks := Function.update l.chunks id (l.chunks id ++ (RawRecv.data bytes).chunks) } := by
    rw [Ledger.received, howner]
  have hsame : ∀ y, ((k.onLink x fun l ↦ { l with up := l.up.pop bytes }).links y).id =
      (k.links y).id := k.onLink_same Link.id rfl
  have hwaiting : ∀ y, ((k.onLink x fun l ↦ { l with up := l.up.pop bytes }).links y).waiting =
      (k.links y).waiting := k.onLink_same Link.waiting rfl
  have helsewhere : ∀ y, ((k.onLink x fun l ↦ { l with up := l.up.pop bytes }).links y).elsewhere =
      (k.links y).elsewhere := k.onLink_same Link.elsewhere rfl
  rw [hledger]
  refine ⟨?_, h.unowned, h.fd_inj, ?_, ?_, ?_, fun id' hfree ↦ ?_, fun y ↦ ?_, h.known,
    h.new_onLink (h.known _ _ hx) _⟩
  · simp only [hsame]
    exact h.owner
  · simp only [hsame]
    exact h.id_inj
  · simp only [hsame, hwaiting, helsewhere]
    exact h.waiting
  · simp only [hsame, helsewhere]
    exact h.elsewhere
  · simp only [hsame] at hfree
    dsimp only
    rw [Function.update_of_ne]
    · exact h.silent id' hfree
    · rintro rfl
      exact hfree x hid
  · by_cases hyx : y = x
    · have hwire := h.wire x
      rw [hid, ← Pipe.append_pop hfront] at hwire
      rw [hyx, Kernel.onLink_links_self, hid]
      dsimp only
      rw [Pipe.pop_calls, hwire]
      simp only [Ledger.read, Function.update_self, List.flatten_append, RawRecv.flatten_chunks,
        List.append_assoc]
    · rw [k.onLink_links_of_ne _ hyx]
      have hne : (k.links y).id ≠ some id := fun heq ↦ hyx (h.id_inj y x id heq hid)
      rw [h.wire y]
      congr 1
      cases hy : (k.links y).id with
      | none => rfl
      | some id' =>
          rw [Ledger.read, Ledger.read]
          dsimp only
          rw [Function.update_of_ne]
          rintro rfl
          exact hne hy

/-- The server closes a descriptor, of a connection or not. -/
theorem closed (h : ServerView l k) (fd : ℤ) : ServerView (l.closed fd) (k.serverClose fd) := by
  have hid := k.serverClose_same Link.id (fun _ ↦ rfl) fd
  have hup := k.serverClose_same Link.up (fun _ ↦ rfl) fd
  have hwaiting := k.serverClose_same Link.waiting (fun _ ↦ rfl) fd
  have helsewhere := k.serverClose_same Link.elsewhere (fun _ ↦ rfl) fd
  have hfds : (k.serverClose fd).serverFds = Function.update k.serverFds fd none := by
    unfold Kernel.serverClose
    split
    · rename_i hnone
      rw [← hnone, Function.update_eq_self]
    · rfl
  have hopened : (k.serverClose fd).opened = k.opened := (k.serverClose_keeps fd).opened
  have hold : ∀ fd' y, (k.serverClose fd).serverFds fd' = some y →
      fd' ≠ fd ∧ k.serverFds fd' = some y := by
    intro fd' y hy
    rw [hfds] at hy
    have hne : fd' ≠ fd := by
      rintro rfl
      rw [Function.update_self] at hy
      cases hy
    rw [Function.update_of_ne hne] at hy
    exact ⟨hne, hy⟩
  refine ⟨fun fd' y hy ↦ ?_, fun fd' hfd' ↦ ?_, fun fd₁ fd₂ y h₁ h₂ ↦ ?_, ?_, fun y hy ↦ ?_,
    fun y hy ↦ ?_, ?_, ?_, fun fd' y hy ↦ ?_, fun y hy ↦ ?_⟩
  · obtain ⟨hne, hy⟩ := hold fd' y hy
    rw [hid, (l.closed_of_ne hne).1, (l.closed_of_ne hne).2]
    exact h.owner fd' y hy
  · by_cases heq : fd' = fd
    · rw [heq]
      exact Function.update_self _ _ _
    · rw [hfds, Function.update_of_ne heq] at hfd'
      rw [(l.closed_of_ne heq).2]
      exact h.unowned fd' hfd'
  · exact h.fd_inj fd₁ fd₂ y (hold fd₁ y h₁).2 (hold fd₂ y h₂).2
  · simp only [hid]
    exact h.id_inj
  · rw [hwaiting] at hy
    rw [hid, helsewhere]
    obtain ⟨hnone, hserver, hnot⟩ := h.waiting y hy
    exact ⟨hnone, hserver, fun fd' hfd' ↦ hnot fd' (hold fd' y hfd').2⟩
  · rw [helsewhere] at hy
    rw [hid]
    obtain ⟨hnone, hnot⟩ := h.elsewhere y hy
    exact ⟨hnone, fun fd' hfd' ↦ hnot fd' (hold fd' y hfd').2⟩
  · simp only [hid]
    exact h.silent
  · simp only [hid, hup]
    exact h.wire
  · rw [hopened]
    exact h.known fd' y (hold fd' y hy).2
  · rw [hopened] at hy
    unfold Kernel.serverClose
    split
    · exact h.new y hy
    · rename_i x hx
      rw [Kernel.setServerFd_links]
      exact h.new_onLink (h.known fd x hx) _ y hy

/-- What closes descriptors, and reads and adds nobody. -/
theorem closing {es : List (ArrayEvent Msg)} (hes : ∀ ev ∈ es, ev.IsClosing)
    (h : ServerView l k) (hk : es.foldlM (Kernel.serverEvent t x) k = some k') :
    ServerView (es.foldl Ledger.record l) k' := by
  induction es generalizing l k with
  | nil =>
      cases hk
      exact h
  | cons ev es ih =>
      obtain ⟨hev, hes⟩ := List.forall_mem_cons.mp hes
      obtain ⟨next, hnext, hk⟩ := Option.bind_eq_some_iff.mp hk
      refine ih hes ?_ hk
      cases ev with
      | closeServer fd =>
          cases hnext
          have hclosed := h.closed fd
          refine hclosed.congr rfl (fun _ ↦ rfl) (fun _ ↦ rfl) (by rintro _ ⟨⟩)
            hclosed.elsewhere (fun _ ↦ le_rfl) fun y hy ↦ ?_
          change ({ (k.serverClose fd).links y with waiting := false } : Link (p y.1) q) = .new
          rw [hclosed.new y hy]
          rfl
      | close fd =>
          cases hnext
          exact h.closed fd
      | delClient id =>
          cases hnext
          exact h
      | _ => exact hev.elim

/-! ### What the clients do -/

/-- Only the bytes that the client sends matter to the server. -/
theorem onLink (h : ServerView l k) (hx : x.2 < k.opened x.1)
    {f : ∀ {i}, Link (p i) q → Link (p i) q} (hid : (f (k.links x)).id = (k.links x).id) (hup : (f (k.links x)).up = (k.links x).up)
    (hwaiting : (f (k.links x)).waiting = (k.links x).waiting)
    (helsewhere : (f (k.links x)).elsewhere = (k.links x).elsewhere) :
    ServerView l (k.onLink x f) := by
  have hsame := k.onLink_same Link.waiting hwaiting
  have hsame' := k.onLink_same Link.elsewhere helsewhere
  refine h.congr rfl (k.onLink_same Link.id hid) (k.onLink_same Link.up hup) (fun y hy ↦ ?_)
    (fun y hy ↦ h.elsewhere y ((hsame' y).symm.trans hy)) (fun _ ↦ le_rfl) (h.new_onLink hx f)
  rw [hsame']
  exact h.waiting y ((hsame y).symm.trans hy)

theorem reset (h : ServerView l k) (hx : x.2 < k.opened x.1) : ServerView l (k.reset x) :=
  h.onLink hx rfl rfl rfl rfl

theorem clientSocket (h : ServerView l k) (i : κ) (connects elsewhere : Bool) (fd : ℤ) :
    ServerView l (k.clientSocket i connects elsewhere fd) := by
  have hopened : ∀ j, k.opened j ≤ Function.update k.opened i (k.opened i + 1) j := by
    intro j
    by_cases hj : j = i
    · rw [hj, Function.update_self]
      exact Nat.le_succ _
    · rw [Function.update_of_ne hj]
  have hlinks : ∀ y, ((k.clientSocket i connects elsewhere fd).links y).id = (k.links y).id ∧
      ((k.clientSocket i connects elsewhere fd).links y).up = (k.links y).up := by
    intro y
    rw [Kernel.clientSocket_links]
    split_ifs <;> exact ⟨rfl, rfl⟩
  have hnew : (k.links (i, k.opened i)).id = none ∧ ∀ fd', k.serverFds fd' ≠ some (i, k.opened i) := by
    rw [h.new (i, k.opened i) le_rfl]
    exact ⟨rfl, fun fd' hfd' ↦ lt_irrefl _ (h.known fd' _ hfd')⟩
  refine h.congr Kernel.clientSocket_serverFds (fun y ↦ (hlinks y).1) (fun y ↦ (hlinks y).2)
    (fun y hy ↦ ?_) (fun y hy ↦ ?_) (fun j ↦ ?_) fun y hy ↦ ?_
  · rw [Kernel.clientSocket_links] at hy ⊢
    split_ifs at hy with heq
    · obtain ⟨hnone, hnot⟩ := hnew
      rw [heq.2, if_pos ⟨heq.1, rfl⟩]
      exact ⟨hnone, by simpa using hy, hnot⟩
    · rw [if_neg heq]
      exact h.waiting y hy
  · rw [Kernel.clientSocket_links] at hy
    split_ifs at hy with heq
    · rw [heq.2]
      exact hnew
    · exact h.elsewhere y hy
  · rw [Kernel.clientSocket_opened]
    exact hopened j
  · rw [Kernel.clientSocket_opened] at hy
    rw [Kernel.clientSocket_links, if_neg]
    · exact h.new y ((hopened y.1).trans hy)
    · rintro ⟨-, rfl⟩
      rw [Function.update_self] at hy
      omega

theorem clientClose (h : ServerView l k) {i : κ} (hknown : ∀ n, k.clientFds i fd = some n →
    n < k.opened i) : ServerView l (k.clientClose i fd) := by
  unfold Kernel.clientClose
  split
  · exact h
  · rename_i n hn
    obtain ⟨howner, hunowned, hfds, hids, hwaiting, helsewhere, hsilent, hwire, hserver, hnew⟩ :=
      h.onLink (x := (i, n)) (f := fun l ↦ { l with clientOpen := false }) (hknown n hn)
        rfl rfl rfl rfl
    exact ⟨howner, hunowned, hfds, hids, hwaiting, helsewhere, hsilent, hwire, hserver, hnew⟩

theorem pushUp (h : ServerView l k) (hx : x.2 < k.opened x.1) (calls : List (Call (p x.1))) :
    ServerView l (k.pushUp x calls) := by
  have hid := k.pushUp_id (x := x) calls
  have hwaiting : ∀ y, ((k.pushUp x calls).links y).waiting = (k.links y).waiting :=
    k.pushUp_same Link.waiting calls rfl
  have helsewhere : ∀ y, ((k.pushUp x calls).links y).elsewhere = (k.links y).elsewhere :=
    k.pushUp_same Link.elsewhere calls rfl
  refine ⟨?_, h.unowned, h.fd_inj, ?_, ?_, ?_, ?_, fun y ↦ ?_, h.known, fun y hy ↦ ?_⟩
  · simp only [hid]
    exact h.owner
  · simp only [hid]
    exact h.id_inj
  · simp only [hid, hwaiting, helsewhere]
    exact h.waiting
  · simp only [hid, helsewhere]
    exact h.elsewhere
  · simp only [hid]
    exact h.silent
  · rw [hid]
    by_cases hyx : y = x
    · rw [hyx, Kernel.pushUp_links_self]
      simp only [Pipe.push, Call.wire_append, h.wire x, List.append_assoc]
    · rw [k.pushUp_links_of_ne calls hyx]
      exact h.wire y
  · rw [k.pushUp_links_of_ne]
    · exact h.new y hy
    · rintro rfl
      exact absurd hx (Nat.not_lt.mpr hy)

omit [DecidableEq κ] in
theorem pushDown (h : ServerView l k) {calls : κ × ℕ → List (Call q)}
    (hcalls : ∀ y, k.opened y.1 ≤ y.2 → calls y = []) : ServerView l (k.pushDown calls) := by
  refine h.congr rfl (fun _ ↦ rfl) (fun _ ↦ rfl) h.waiting h.elsewhere (fun _ ↦ le_rfl)
    fun y hy ↦ ?_
  change ({ k.links y with down := (k.links y).down.push (calls y) } : Link (p y.1) q) = .new
  rw [hcalls y hy, Pipe.push_nil]
  exact h.new y hy

end ServerView

/-! ## The client's side -/

/-- The log of a client and the kernel agree: the open descriptor belongs to
the last connection, and what each connection is said to have received has
been taken out of it. -/
structure ClientView (i : κ) (cur : Option ℤ) (conns : List (Connection Msg))
    (k : Kernel κ p q) : Prop where
  opened : k.opened i = conns.length
  fd : ∀ fd n, k.clientFds i fd = some n →
    cur = some fd ∧ ∃ conn rest, conns = conn :: rest ∧ conn.fd = fd ∧ rest.length = n
  wire : ∀ conn rest, conn :: rest <:+ conns → (k.links (i, rest.length)).elsewhere = false →
    Call.wire (k.links (i, rest.length)).down.calls =
      conn.chunks.flatten ++ (k.links (i, rest.length)).down.queue

/-- A `Recv` that fails reads nothing. -/
theorem receivedOn_error (fd : ℤ) (errno : ℕ) (conns : List (Connection Msg)) :
    receivedOn fd (.error errno) conns = conns := by
  induction conns with
  | nil => rfl
  | cons conn conns ih =>
      rw [receivedOn, ih]
      simp [RawRecv.chunks]

namespace ClientView

variable {i : κ} {cur cur' : Option ℤ} {conns : List (Connection Msg)}

theorem congr (h : ClientView i cur conns k) (hopened : k'.opened i = k.opened i)
    (hfds : k'.clientFds i = k.clientFds i)
    (hdown : ∀ n, (k'.links (i, n)).down = (k.links (i, n)).down)
    (helsewhere : ∀ n, (k'.links (i, n)).elsewhere = (k.links (i, n)).elsewhere) :
    ClientView i cur conns k' := by
  refine ⟨?_, ?_, ?_⟩
  · rw [hopened]
    exact h.opened
  · rw [hfds]
    exact h.fd
  · simp only [hdown, helsewhere]
    exact h.wire

theorem known (h : ClientView i cur conns k) {fd : ℤ} {n : ℕ} (hfd : k.clientFds i fd = some n) :
    n < k.opened i := by
  obtain ⟨-, conn, rest, rfl, -, rfl⟩ := h.fd fd n hfd
  rw [h.opened, List.length_cons]
  exact Nat.lt_succ_self _

/-- The server, or a thread of it, has sent. -/
theorem pushDown (h : ClientView i cur conns k) (calls : κ × ℕ → List (Call q)) :
    ClientView i cur conns (k.pushDown calls) := by
  refine ⟨h.opened, h.fd, fun conn rest hsuffix hserver ↦ ?_⟩
  simp only [Kernel.pushDown, Pipe.push, Call.wire_append, h.wire conn rest hsuffix hserver,
    List.append_assoc]

variable [DecidableEq κ]

theorem reset (h : ClientView i cur conns k) (x : κ × ℕ) : ClientView i cur conns (k.reset x) :=
  h.congr rfl rfl (fun n ↦ k.reset_same Link.down (fun _ ↦ rfl) (i, n))
    fun n ↦ k.reset_same Link.elsewhere (fun _ ↦ rfl) (i, n)

theorem socket (h : ClientView i none conns k) (hnew : k.links (i, k.opened i) = .new)
    (connects elsewhere : Bool) (fd : ℤ) :
    ClientView i (some fd) (⟨fd, [], []⟩ :: conns)
      (k.clientSocket i connects elsewhere fd) := by
  have hnone : ∀ fd' n, k.clientFds i fd' ≠ some n := by
    intro fd' n hfd'
    cases (h.fd fd' n hfd').1
  have hdown : ∀ n, ((k.clientSocket i connects elsewhere fd).links (i, n)).down =
      (k.links (i, n)).down := by
    intro n
    rw [Kernel.clientSocket_links]
    split_ifs <;> rfl
  refine ⟨?_, fun fd' n hfd' ↦ ?_, fun conn rest hsuffix hserver ↦ ?_⟩
  · rw [Kernel.clientSocket_opened, Function.update_self, h.opened, List.length_cons]
  · rw [Kernel.clientSocket_clientFds] at hfd'
    split_ifs at hfd'
    · rw [Function.update_self] at hfd'
      by_cases heq : fd' = fd
      · rw [heq, Function.update_self] at hfd'
        rw [heq]
        exact ⟨rfl, _, conns, rfl, rfl, h.opened.symm.trans (Option.some.inj hfd')⟩
      · rw [Function.update_of_ne heq] at hfd'
        exact absurd hfd' (hnone fd' n)
    · exact absurd hfd' (hnone fd' n)
  · rw [hdown]
    rcases List.suffix_cons_iff.mp hsuffix with heq | hsuffix
    · cases heq
      rw [← h.opened, hnew]
      rfl
    · refine h.wire conn rest hsuffix ?_
      rw [Kernel.clientSocket_links, if_neg] at hserver
      · exact hserver
      · rintro ⟨-, heq⟩
        have hlt := hsuffix.length_le
        rw [List.length_cons, ← h.opened, (Prod.mk.inj heq).2] at hlt
        omega

theorem closed {fd : ℤ} (h : ClientView i (some fd) conns k) :
    ClientView i none conns (k.clientClose i fd) := by
  unfold Kernel.clientClose
  split
  · rename_i hnone
    refine ⟨h.opened, fun fd' n hfd' ↦ ?_, h.wire⟩
    cases (h.fd fd' n hfd').1
    rw [hnone] at hfd'
    cases hfd'
  · refine ⟨h.opened, fun fd' n hfd' ↦ ?_, fun conn rest hsuffix hserver ↦ ?_⟩
    · rw [Kernel.setClientFd_clientFds, Function.update_self] at hfd'
      by_cases heq : fd' = fd
      · rw [heq, Function.update_self] at hfd'
        cases hfd'
      · rw [Function.update_of_ne heq] at hfd'
        cases (h.fd fd' n hfd').1
        exact absurd rfl heq
    · rw [Kernel.setClientFd_links] at hserver ⊢
      rw [k.onLink_same Link.elsewhere rfl] at hserver
      rw [k.onLink_same Link.down rfl]
      exact h.wire conn rest hsuffix hserver

omit [DecidableEq κ] in
/-- A chunk is read elsewhere. -/
theorem receivedElsewhere (h : ClientView i cur conns k) {fd : ℤ} {n : ℕ}
    (hfd : k.clientFds i fd = some n) (helsewhere : (k.links (i, n)).elsewhere = true)
    (bytes : List UInt8) : ClientView i cur (receivedOn fd (.data bytes) conns) k := by
  obtain ⟨hcur, conn, rest, rfl, rfl, rfl⟩ := h.fd fd n hfd
  rw [receivedOn, if_pos rfl]
  refine ⟨h.opened, fun fd' n hfd' ↦ ?_, fun conn' rest' hsuffix hserver ↦ ?_⟩
  · obtain ⟨hcur', conn', rest', heq, hsame, hlength⟩ := h.fd fd' n hfd'
    cases heq
    exact ⟨hcur', _, rest, rfl, hsame, hlength⟩
  · rcases List.suffix_cons_iff.mp hsuffix with heq | hsuffix
    · cases heq
      rw [helsewhere] at hserver
      cases hserver
    · exact h.wire conn' rest' (hsuffix.trans (List.suffix_cons _ _)) hserver

/-- A chunk is read from the connection that is open. -/
theorem received (h : ClientView i cur conns k) {fd : ℤ} {n : ℕ} (hfd : k.clientFds i fd = some n)
    {bytes : List UInt8} (hfront : bytes <+: (k.links (i, n)).down.queue) :
    ClientView i cur (receivedOn fd (.data bytes) conns)
      (k.onLink (i, n) fun l ↦ { l with down := l.down.pop bytes }) := by
  obtain ⟨hcur, conn, rest, rfl, rfl, rfl⟩ := h.fd fd n hfd
  rw [receivedOn, if_pos rfl]
  refine ⟨h.opened, fun fd' n hfd' ↦ ?_, fun conn' rest' hsuffix hserver ↦ ?_⟩
  · obtain ⟨hcur', conn', rest', heq, hsame, hlength⟩ := h.fd fd' n hfd'
    cases heq
    exact ⟨hcur', _, rest, rfl, hsame, hlength⟩
  · rw [k.onLink_same Link.elsewhere rfl] at hserver
    rcases List.suffix_cons_iff.mp hsuffix with heq | hsuffix
    · cases heq
      have hwire := h.wire conn rest List.suffix_rfl hserver
      rw [← Pipe.append_pop hfront] at hwire
      rw [Kernel.onLink_links_self]
      dsimp only
      rw [Pipe.pop_calls, hwire, List.flatten_append, RawRecv.flatten_chunks, List.append_assoc]
    · have hlt := hsuffix.length_le
      rw [List.length_cons] at hlt
      rw [Kernel.onLink_links_of_ne]
      · exact h.wire conn' rest' (hsuffix.trans (List.suffix_cons _ _)) hserver
      · intro heq
        rw [(Prod.mk.inj heq).2] at hlt
        omega

omit [DecidableEq κ] in
/-- A message is dispatched. -/
theorem dispatch (h : ClientView i cur conns k) (d : Delivery Msg) :
    ClientView i cur (recordConnection conns (.channel (.dispatch d))) k := by
  cases conns with
  | nil => exact h
  | cons conn conns =>
      refine ⟨h.opened, fun fd n hfd ↦ ?_, fun conn' rest hsuffix ↦ ?_⟩
      · obtain ⟨hcur, conn', rest, heq, hsame, hlength⟩ := h.fd fd n hfd
        cases heq
        exact ⟨hcur, _, conns, rfl, hsame, hlength⟩
      · rcases List.suffix_cons_iff.mp hsuffix with heq | hsuffix
        · cases heq
          exact h.wire conn conns List.suffix_rfl
        · exact h.wire conn' rest (hsuffix.trans (List.suffix_cons _ _))

/-- One event of the client, which the server's side survives as well. -/
theorem event (ht : t.InOrder) (h : ClientView i cur conns k) {l : Ledger}
    (hserver : ServerView l k) {connects elsewhere : Bool} {ev : ClientEvent Msg}
    (htrack : ev.track cur = some cur')
    (hk : Kernel.clientEvent t i connects elsewhere k ev = some k') :
    ClientView i cur' (recordConnection conns ev) k' ∧ ServerView l k' := by
  have hclose : ∀ fd, cur = some fd → none = cur' → k' = k.clientClose i fd →
      ClientView i cur' conns k' ∧ ServerView l k' := by
    rintro fd rfl rfl rfl
    exact ⟨h.closed, hserver.clientClose fun n hn ↦ h.known hn⟩
  cases ev with
  | socket fd =>
      simp only [ClientEvent.track] at htrack
      split_ifs at htrack with hnone
      cases htrack
      cases hk
      subst hnone
      exact ⟨h.socket (hserver.new _ le_rfl) connects elsewhere fd,
        hserver.clientSocket i connects elsewhere fd⟩
  | close fd =>
      simp only [ClientEvent.track] at htrack
      split_ifs at htrack with hsome
      exact hclose fd hsome (Option.some.inj htrack) (Option.some.inj hk).symm
  | channel ev =>
      cases ev with
      | close fd =>
          simp only [ClientEvent.track] at htrack
          split_ifs at htrack with hsome
          exact hclose fd hsome (Option.some.inj htrack) (Option.some.inj hk).symm
      | recv fd size r =>
          cases htrack
          cases r with
          | error errno =>
              cases hk
              rw [recordConnection, receivedOn_error]
              exact ⟨h, hserver⟩
          | data bytes =>
              simp only [Kernel.clientEvent] at hk
              split at hk
              · cases hk
              · rename_i n hn
                split_ifs at hk with helsewhere hoffers
                · cases hk
                  exact ⟨h.receivedElsewhere hn helsewhere bytes, hserver⟩
                · cases hk
                  exact ⟨h.received hn (ht hoffers), hserver.onLink (h.known hn) rfl rfl rfl rfl⟩
      | dispatch d =>
          cases htrack
          cases hk
          exact ⟨h.dispatch d, hserver⟩
      | _ =>
          cases htrack
          cases hk
          exact ⟨h, hserver⟩

/-- The events of a step of the client. -/
theorem events (ht : t.InOrder) (h : ClientView i cur conns k) {l : Ledger}
    (hserver : ServerView l k) {connects elsewhere : Bool} {es : List (ClientEvent Msg)}
    (htrack : trackFrom cur es = some cur')
    (hk : es.foldlM (Kernel.clientEvent t i connects elsewhere) k = some k') :
    ClientView i cur' (es.foldl recordConnection conns) k' ∧ ServerView l k' := by
  induction es generalizing cur conns k with
  | nil =>
      cases htrack
      cases hk
      exact ⟨h, hserver⟩
  | cons ev es ih =>
      obtain ⟨next, hnext, htrack⟩ := Option.bind_eq_some_iff.mp htrack
      obtain ⟨k₁, hk₁, hk⟩ := Option.bind_eq_some_iff.mp hk
      obtain ⟨hclient, hserver⟩ := h.event ht hserver hnext hk₁
      exact ih hclient hserver htrack hk

end ClientView

end Libgep
