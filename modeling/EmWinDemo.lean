import EmWinDemo.Lib.Runs
import EmWinDemo.Lib.CMemory
import EmWinDemo.Lib.Checked
import EmWinDemo.Lib.CText
import EmWinDemo.Lib.Fifo
import EmWinDemo.Lib.FormUrl
import EmWinDemo.Lib.Descriptors
import EmWinDemo.Lib.Forest
import EmWinDemo.Lib.Json
import EmWinDemo.Lib.Doubles
import EmWinDemo.Lib.Numerals
import EmWinDemo.Lib.Ring
import EmWinDemo.Lib.Wakeups
import EmWinDemo.Lib.LineStream
import EmWinDemo.Lib.Chunked
import EmWinDemo.Json.Strings
import EmWinDemo.Json.StringTexts
import EmWinDemo.Json.Numbers
import EmWinDemo.Json.Parse
import EmWinDemo.Json.Bounds
import EmWinDemo.Json.Accepts
import EmWinDemo.Json.Print
import EmWinDemo.Json.Store
import EmWinDemo.Json.Build
import EmWinDemo.Json.BuildsValue
import EmWinDemo.Kernel.Queue
import EmWinDemo.Kernel.Blocking
import EmWinDemo.Kernel.Served
import EmWinDemo.Socket.ClientRead
import EmWinDemo.Socket.ReaderLoop
import EmWinDemo.Socket.QueueRead
import EmWinDemo.Socket.QueueBounds
import EmWinDemo.Socket.Relay
import EmWinDemo.Socket.AcceptLoop
import EmWinDemo.Socket.Sessions
import EmWinDemo.Socket.CleanClose
import EmWinDemo.Socket.Admission
import EmWinDemo.Weather.CJson
import EmWinDemo.Weather.Forecast
import EmWinDemo.Weather.Fields
import EmWinDemo.Weather.Frees
import EmWinDemo.Weather.ReadPage
import EmWinDemo.Weather.Extract
import EmWinDemo.Weather.Window
import EmWinDemo.Weather.Document
import EmWinDemo.Http.Cgi
import EmWinDemo.Http.Urldecode
import EmWinDemo.Http.Varval
import EmWinDemo.Http.RtcData
import EmWinDemo.Http.Reader
import EmWinDemo.Http.Output
import EmWinDemo.Http.Response
import EmWinDemo.Http.Client
import EmWinDemo.Http.Pages
import EmWinDemo.Http.Includes
import EmWinDemo.Http.Templates
import EmWinDemo.Board.Touch
import EmWinDemo.Board.FrameBuffer
import EmWinDemo.Gui.Activities
import EmWinDemo.Gui.Handles
import EmWinDemo.Gui.Navigation
import EmWinDemo.Gui.Screens
import EmWinDemo.Gui.MsgButtons
import EmWinDemo.Gui.MenuButtons
import EmWinDemo.Demo.System
import EmWinDemo.Demo.Buttons
import EmWinDemo.Lib.Utf8
import EmWinDemo.Lib.WebSocket
import EmWinDemo.WebSocket.Frames
import EmWinDemo.WebSocket.Send
import EmWinDemo.WebSocket.Utf8
import EmWinDemo.WebSocket.Session
import EmWinDemo.WebSocket.Receive
import EmWinDemo.WebSocket.Pieces
import EmWinDemo.WebSocket.Answers
import EmWinDemo.WebSocket.Echo
import EmWinDemo.WebSocket.Text
