/-
Settings from text, in the grammar of `MqttCodec.Json.Reader`. The text is one
object, whose members may come in any order; members that are not known are
passed over. A known member may be given once, and all but the required ones
may be left out.
-/
import MqttCodec.Json.Skipping
import MqttCodec.Settings

namespace MqttCodec

open Json

/-- A guarantee, given by its number. -/
def QoS.reader : Reader QoS := (unsigned 255).filterMap fun n => (ofLevel n.toUInt8).toOption

/-- The members of connection options that were given. -/
structure ConnectOptions.Given where
  cleanSession : Option Bool := none
  keepAliveSeconds : Option Nat := none
  clientId : Option String := none
  userName : Option (Option String) := none
  password : Option (Option String) := none

namespace ConnectOptions

def Given.member (key : String) (g : Given) : Reader Given :=
  match key with
  | "clean_session" => once g.cleanSession boolean fun b => { g with cleanSession := some b }
  | "keep_alive_seconds" =>
    once g.keepAliveSeconds (unsigned 65535) fun n => { g with keepAliveSeconds := some n }
  | "client_identifier" => once g.clientId string fun s => { g with clientId := some s }
  | "user_name" => once g.userName (nullable string) fun s => { g with userName := some s }
  | "password" => once g.password (nullable string) fun s => { g with password := some s }
  | _ => skip g

/-- The options, if a client identifier was given. -/
def Given.complete? (g : Given) : Option ConnectOptions :=
  g.clientId.map fun clientId => {
    clientId
    cleanSession := g.cleanSession.getD false
    keepAliveSeconds := (g.keepAliveSeconds.getD 0).toUInt16
    userName := g.userName.join
    password := g.password.join }

def reader : Reader ConnectOptions := (object Given.member {}).filterMap Given.complete?

end ConnectOptions

/-- The members of a will that were given. -/
structure Will.Given where
  topic : Option String := none
  message : Option String := none
  qos : Option QoS := none
  retain : Option Bool := none

namespace Will

def Given.member (key : String) (g : Given) : Reader Given :=
  match key with
  | "topic" => once g.topic string fun s => { g with topic := some s }
  | "message" => once g.message string fun s => { g with message := some s }
  | "qos" => once g.qos QoS.reader fun q => { g with qos := some q }
  | "retain" => once g.retain boolean fun b => { g with retain := some b }
  | _ => skip g

/-- The will, if a topic was given. -/
def Given.complete? (g : Given) : Option Will :=
  g.topic.map fun topic => {
    topic
    message := g.message.getD ""
    qos := g.qos.getD .atMostOnce
    retain := g.retain.getD false }

def reader : Reader Will := (object Given.member {}).filterMap Given.complete?

end Will

/-- The members of a subscription that were given. -/
structure Subscription.Given where
  qos : Option QoS := none
  topicFilter : Option String := none

namespace Subscription

def Given.member (key : String) (g : Given) : Reader Given :=
  match key with
  | "qos" => once g.qos QoS.reader fun q => { g with qos := some q }
  | "topic_filter" => once g.topicFilter string fun s => { g with topicFilter := some s }
  | _ => skip g

/-- The subscription, if a filter was given. -/
def Given.complete? (g : Given) : Option Subscription :=
  g.topicFilter.map fun topicFilter => { topicFilter, qos := g.qos.getD .atMostOnce }

def reader : Reader Subscription := (object Given.member {}).filterMap Given.complete?

end Subscription

/-- The members of settings that were given. -/
structure Settings.Given where
  connect : Option ConnectOptions := none
  will : Option (Option Will) := none
  subscriptions : Option (ListUpTo maxSubscriptions Subscription) := none

namespace Settings

def Given.member (key : String) (g : Given) : Reader Given :=
  match key with
  | "connect" => once g.connect ConnectOptions.reader fun o => { g with connect := some o }
  | "will" => once g.will (nullable Will.reader) fun w => { g with will := some w }
  | "subscriptions" =>
    once g.subscriptions (listUpTo maxSubscriptions Subscription.reader) fun l =>
      { g with subscriptions := some l }
  | _ => skip g

/-- The settings, if connection options were given. -/
def Given.complete? (g : Given) : Option Settings :=
  g.connect.map fun connect =>
    let subscriptions := g.subscriptions.getD ⟨[], Nat.zero_le _⟩
    { connect
      will := g.will.join
      subscriptions := subscriptions.1
      length_subscriptions := subscriptions.2 }

def reader : Reader Settings := (object Given.member {}).filterMap Given.complete?

/-- The settings a text describes. Only blanks may follow them. -/
def ofText? (t : Text) : Option Settings :=
  match reader t with
  | some (s, r) => if skipBlanks r.1 = [] then some s else none
  | none => none

/-- The settings a text describes. -/
def load (text : String) : Except Error Settings :=
  match ofText? text.toList with
  | some s => .ok s
  | none => .error .invalidParameter

end Settings

end MqttCodec
