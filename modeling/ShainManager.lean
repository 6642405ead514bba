import ShainManager.Attendance.WriteOnce
import ShainManager.Attendance.Press
import ShainManager.Attendance.Idle
import ShainManager.Attendance.Records
import ShainManager.Chat
import ShainManager.TaskBoard
import ShainManager.TaskBoard.Drag
import ShainManager.TaskBoard.Colors
import ShainManager.Attendance.DayKeys
import ShainManager.SqliteMap
import ShainManager.MonthList.Passes
import ShainManager.MonthList.Dates
import ShainManager.Attendance.Gate
import ShainManager.LastResult
import ShainManager.ChatSend
import ShainManager.Receipt
import ShainManager.LastPhoto
import ShainManager.Passwords
import ShainManager.ChoiceChat.Search
import ShainManager.ChoiceChat.Preview
import ShainManager.ChoiceChat.Nulls
import ShainManager.Registration
import ShainManager.Opening
import ShainManager.Attendance.Register
import ShainManager.MonthList.Pipeline
import ShainManager.Dialogs
import ShainManager.HomePage
import ShainManager.Lib.Collection
import ShainManager.TaskBoard.Clients
import ShainManager.ChatClients
import ShainManager.Session
