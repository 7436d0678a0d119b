import Fetchpp.ErrorCode
import Fetchpp.Endpoint
import Fetchpp.Lib.Machine
import Fetchpp.Lib.Potential
import Fetchpp.Lib.Desk
import Fetchpp.Lib.Framing
import Fetchpp.Lib.Pool
import Fetchpp.Lib.Regex
import Fetchpp.Lib.Numeral
import Fetchpp.Lib.Base64
import Fetchpp.Lib.Percent
import Fetchpp.Http.Message
import Fetchpp.Http.TextCodec
import Fetchpp.Http.Authorization
import Fetchpp.Http.Url
import Fetchpp.Http.Proxy
import Fetchpp.Http.ContentType
import Fetchpp.Http.MediaTypes
import Fetchpp.Http.Classifying
import Fetchpp.Http.Content
import Fetchpp.Http.ContentLength
import Fetchpp.Http.Hosts
import Fetchpp.Http.Precedence
import Fetchpp.Http.Environment
import Fetchpp.Http.Credentials
import Fetchpp.Session.Core
import Fetchpp.Session.Interleaving
import Fetchpp.Session.Drivers
import Fetchpp.Session.Handlers
import Fetchpp.Session.Stopping
import Fetchpp.Session.Overlap
import Fetchpp.Session.Effects
import Fetchpp.Session.Failing
import Fetchpp.Transport.Core
import Fetchpp.Transport.Steps
import Fetchpp.Transport.Sequence
import Fetchpp.Transport.Interim
import Fetchpp.Transport.Processing
import Fetchpp.Connection.Core
import Fetchpp.Connection.Refinement
import Fetchpp.Connection.Streams
import Fetchpp.Connection.Responses
import Fetchpp.Client.Core
import Fetchpp.Client.Hosting
import Fetchpp.Client.Selecting
import Fetchpp.Client.Escaping
import Fetchpp.Client.Bounding
import Fetchpp.Client.Stopping
import Fetchpp.Client.Routing
import Fetchpp.Client.Updating
import Fetchpp.Client.Tunnelling
import Fetchpp.Session.Retrying
import Fetchpp.Session.GivingUp
import Fetchpp.Session.Rounds
import Fetchpp.Connection.Calls
import Fetchpp.Connection.Retrying
import Fetchpp.Connection.Overtaking
import Fetchpp.Connection.Reconnecting
import Fetchpp.Connection.Standing
import Fetchpp.Connection.Suspending
import Fetchpp.Connection.Accounting
import Fetchpp.Connection.Disarming
import Fetchpp.Connection.Closing
import Fetchpp.Connection.Dropping
import Fetchpp.Connection.Fetching
import Fetchpp.Connection.GivingUp
import Fetchpp.Connection.Repeating
import Fetchpp.Session.Resting
import Fetchpp.Session.Serving
import Fetchpp.Connection.Resting
import Fetchpp.Connection.Sending
import Fetchpp.Connection.Answering
import Fetchpp.Client.Accounting
import Fetchpp.Client.Reporting
import Fetchpp.Client.Resting
import Fetchpp.Client.Outage
import Fetchpp.Client.Spreading
import Fetchpp.Client.Configuring
import Fetchpp.Stack.Core
import Fetchpp.Stack.Refinement
import Fetchpp.Stack.Delivering
import Fetchpp.Stack.Sending
import Fetchpp.Stack.Resting
